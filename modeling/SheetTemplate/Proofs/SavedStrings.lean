import SheetTemplate.Proofs.ReopenedSession
import SheetTemplate.Proofs.RewrittenParts

/-!
# Shared strings after passes

The texts that a part had when the session was opened keep their slots through all passes, so the
entries that were read with them are written back every time, runs and all. What passes add comes
behind them.

A pass writes the shared strings first, and then the workbook, its relationships and the content
types; it takes away the order of calculation. A part that is one of these as well is lost.

## Key results

- `SharedStrings.named_si_grown`: the entries that are written after texts were added
- `Session.KeepsStrings.fill`: what a call that succeeds keeps, and what it writes
- `Session.rich_strings_survive`: the part after any calls that succeed
-/

namespace SheetTemplate

open Fill (Pass)
open Xml (Document Element)

namespace SharedStrings

/-- The entries that were read are written as they were, and further texts get plain ones. -/
theorem named_si_grown {path : String} {doc : Document} {s : SharedStrings} (h : s.Sound)
    (hread : s.read = (ofDocument path doc).read) {added : List String}
    (htexts : s.table.toList = (ofDocument path doc).table.toList ++ added) :
    s.document.root.named "si" = doc.root.named "si" ++ added.map newEntry := by
  have hfst : (ofDocument path doc).read.map Prod.fst = (ofDocument path doc).table.toList :=
    (StringTable.toList_ofList _).symm
  have hlength : (ofDocument path doc).read.length ≤ (ofDocument path doc).table.toList.length := by
    rw [← hfst, List.length_map]
  rw [h.named_si_document, hread, htexts, entries_append hlength, entries_of_map_fst hfst]
  simp [ofDocument, Function.comp_def]

/-- The document says twice how many texts there are. -/
theorem attr?_count_document (s : SharedStrings) :
    s.document.root.attr? "count" = some (toString s.table.size) ∧
      s.document.root.attr? "uniqueCount" = some (toString s.table.size) := by
  unfold document
  dsimp only
  rw [Element.attr?_setAttr_of_ne _ (by decide), Element.attr?_setAttr_self,
    Element.attr?_setAttr_self]
  exact ⟨rfl, rfl⟩

end SharedStrings

/-- A pass only adds texts to the table. -/
theorem Fill.Pass.growsTo_of_run {options : FillOptions} {files : ImageFiles}
    {values : Substitutions} {p q : Pass} (h : p.run options files values = .ok q) :
    p.strings.GrowsTo q.strings := by
  obtain ⟨r, hchanges, rfl⟩ := changes_of_run h
  refine hchanges.keep (I := fun r => p.strings.GrowsTo r.strings) (fun r r' hchange hr => ?_)
    (.refl _)
  cases hchange with
  | text text => exact hr.trans (StringTable.growsTo_index _ text)
  | _ => exact hr

namespace Session

variable {options : FillOptions} {files : ImageFiles} {values : Substitutions}

/-- Shared strings that are a part of the package, and no part that is written after them. -/
structure StringsApart (s : Session) : Prop where
  existed : s.strings.existed = true
  workbook : s.strings.path ≠ s.workbook.path
  rels : s.strings.path ≠ s.workbook.rels.path
  types : s.strings.path ≠ Package.contentTypesPart

/-- They are in their part when all is written, unless this is taken away as the order of
calculation. -/
theorem StringsApart.get?_written {s : Session} (h : s.StringsApart)
    (hchain : s.workbook.linked? "calcChain" ≠ some s.strings.path) :
    (s.written s.workbook.rels s.types).package.get? s.strings.path =
      some s.strings.document.toBytes := by
  have hwrite : (s.strings.write s.package).get? s.strings.path =
      some s.strings.document.toBytes := by
    rw [SharedStrings.write, if_pos (by simp [SharedStrings.isWritten, h.existed]), Package.setXml,
      Package.get?_set_self]
  have hself : ({ s.workbook with rels := s.workbook.rels } : Workbook) = s.workbook := rfl
  -- The workbook, its relationships and the content types are set one after another.
  have hset (package : Package) (d d' d'' : ByteArray) :
      (((package.set s.workbook.path d).set s.workbook.rels.path d').set Package.contentTypesPart
        d'').get? s.strings.path = package.get? s.strings.path := by
    rw [Package.get?_set_of_ne _ h.types, Package.get?_set_of_ne _ h.rels,
      Package.get?_set_of_ne _ h.workbook]
  unfold written
  rw [hself]
  unfold Workbook.dropCalcChain
  cases hlinked : s.workbook.linked? "calcChain" with
  | none => exact (hset ..).trans hwrite
  | some chain =>
    have hne : s.strings.path ≠ chain := fun heq => hchain (heq ▸ hlinked)
    exact (hset ..).trans ((Package.get?_remove_of_ne _ hne).trans hwrite)

/-- A session that has the shared strings of an earlier one, perhaps with further texts, and the
workbook in the same place. -/
structure KeepsStrings (first s : Session) : Prop where
  sound : s.Sound
  known : s.StringsKnown
  workbook : s.workbook.path = first.workbook.path
  rels : s.workbook.rels.path = first.workbook.rels.path
  strings : s.strings = { first.strings with table := s.strings.table }
  grows : first.strings.table.GrowsTo s.strings.table

/-- A call that succeeds keeps the shared strings and writes them, if they are a part by themselves.
There is no order of calculation after it. -/
theorem KeepsStrings.fill {first s next : Session} {selector : SheetSelector} {report : Report}
    (hs : first.KeepsStrings s) (h : s.fill options files selector values = (next, report))
    (hreport : report.failure = none) :
    first.KeepsStrings next ∧ next.workbook.linked? "calcChain" = none ∧
      (first.StringsApart → s.workbook.linked? "calcChain" ≠ some first.strings.path →
        next.package.get? first.strings.path = some next.strings.document.toBytes) := by
  obtain ⟨hsound, -, -⟩ := stored_of_fill hs.sound h hreport
  obtain ⟨p, q, hstart, hrun, rfl, hknown⟩ := written_of_fill hs.known h hreport
  obtain ⟨hpath, hrels⟩ := Pass.workbook_of_run hrun
  have hgrows := Pass.growsTo_of_run hrun
  obtain ⟨_, _, _, _, -, -, -, -, rfl⟩ := startPass_eq_ok hstart
  dsimp only at hpath hrels hgrows
  have hpaths := paths_dropCalcChain { q.workbook with rels := q.workbook.rels }
    ((s.during q).strings.write (s.during q).package) q.types
  have hstrings : (s.during q).strings = { first.strings with table := q.strings } := by
    rw [during, hs.strings]
  have hsamePath : (s.during q).strings.path = first.strings.path := by rw [hstrings]
  -- The path and the entries stay those of the first session.
  refine ⟨⟨hsound, hknown, hpaths.1.trans (hpath.trans hs.workbook),
    hpaths.2.trans ((congrArg _ hrels).trans hs.rels), hstrings, hs.grows.trans hgrows⟩, ?_,
    fun hapart hchain => ?_⟩
  · obtain ⟨bare, hnone, heq⟩ := exists_dropCalcChain_eq
      { q.workbook with rels := q.workbook.rels }
      ((s.during q).strings.write (s.during q).package) q.types
    exact (congrArg (Workbook.linked? · "calcChain") heq).trans hnone
  -- The part is not one of those that are written after it.
  · have hduring : (s.during q).StringsApart := {
      existed := by rw [hstrings]; exact hapart.existed
      workbook := by
        rw [hsamePath]
        exact fun heq => hapart.workbook (heq.trans (hpath.trans hs.workbook))
      rels := by
        rw [hsamePath]
        exact fun heq => hapart.rels (heq.trans ((congrArg _ hrels).trans hs.rels))
      types := by rw [hsamePath]; exact hapart.types }
    have hlinked : (s.during q).workbook.linked? "calcChain" ≠ some (s.during q).strings.path := by
      rw [hsamePath, Workbook.linked?, during, hrels, hpath]
      exact hchain
    have hget := hduring.get?_written hlinked
    rw [hsamePath] at hget
    exact hget

/-- The same after any calls that succeed: the shared strings are in their part if at least one was
made, and the order of calculation was not in their place for the only one. -/
theorem KeepsStrings.fillCalls {first s : Session} (hs : first.KeepsStrings s)
    (calls : List FillCall)
    (hreports : ∀ report ∈ (s.fillCalls options files calls).2, report.failure = none) :
    first.KeepsStrings (s.fillCalls options files calls).1 ∧
      (first.StringsApart → calls ≠ [] → (calls.length = 1 →
          s.workbook.linked? "calcChain" ≠ some first.strings.path) →
        (s.fillCalls options files calls).1.package.get? first.strings.path =
          some (s.fillCalls options files calls).1.strings.document.toBytes) := by
  induction calls generalizing s with
  | nil => exact ⟨hs, fun _ hne => absurd rfl hne⟩
  | cons call calls ih =>
    rw [Session.fillCalls, List.forall_mem_cons] at hreports
    obtain ⟨hnext, hnone, hwritten⟩ := hs.fill Prod.mk.eta.symm hreports.1
    obtain ⟨hlast, hstored⟩ := ih hnext hreports.2
    refine ⟨hlast, fun hapart _ hchain => ?_⟩
    cases calls with
    | nil => exact hwritten hapart (hchain rfl)
    | cons call' calls =>
      -- After the first call there is no order of calculation any more.
      exact hstored hapart (List.cons_ne_nil _ _) fun _ => by simp [hnone]

/-- Shared strings that are not there when a session is opened are not begun: no cell shows a text
of theirs, so there is none to fill. -/
theorem KeepsStrings.not_begun {first s : Session} (hs : first.KeepsStrings s)
    (hnew : first.strings.existed = false) :
    s.strings.table.toList = [] ∧ s.strings.isWritten = false := by
  have hexisted : s.strings.existed = false := by
    rw [hs.strings]
    exact hnew
  have hempty : s.strings.table.size = 0 :=
    hs.known.resolve_left (by rw [hexisted]; exact Bool.false_ne_true)
  exact ⟨List.eq_nil_of_length_eq_zero (Array.length_toList.trans hempty),
    by simp [SharedStrings.isWritten, hexisted, hempty]⟩

/-- The shared strings of a session that is opened are those of the part that the workbook links. -/
theorem strings_ofPackage {package : Package} {first : Session} {path : String} {doc : Document}
    (hopen : ofPackage package = .ok first)
    (hpath : first.workbook.sharedStringsPath? = some path)
    (hdoc : package.requireXml path = .ok doc) : first.strings = .ofDocument path doc := by
  have hload := (ofPackage_eq_ok.1 hopen).2.1
  rw [hpath, SharedStrings.load, Package.xml?_eq_some.2 hdoc] at hload
  exact (Except.ok.inj hload).symm

variable (options files) in
/-- After any calls that succeed, the part of the shared strings has the entries that it had when
the session was opened, each as it was but for how its texts are divided, and then a plain entry for
each text that was added. Once a call was made, both counts are the number of entries. The part must
not be one of those that are written after it, nor, for a single call, the order of calculation. A
package without such a part gets none. -/
theorem rich_strings_survive {package : Package} {first : Session}
    (hnames : package.UsesNames) (hopen : ofPackage package = .ok first) (calls : List FillCall)
    (hreports : ∀ report ∈ (first.fillCalls options files calls).2, report.failure = none) :
    (∀ (path : String) (doc : Document), first.workbook.sharedStringsPath? = some path →
      package.requireXml path = .ok doc →
      path ≠ first.workbook.path → path ≠ first.workbook.rels.path →
      path ≠ Package.contentTypesPart →
      (calls.length = 1 → first.workbook.linked? "calcChain" ≠ some path) →
      ∃ (doc' : Document) (added : List String),
        (first.fillCalls options files calls).1.package.requireXml path = .ok doc' ∧
        (first.fillCalls options files calls).1.strings.table.toList =
          first.strings.table.toList ++ added ∧
        (doc'.root.named "si").map Element.tidy = (doc.root.named "si").map Element.tidy ++
          added.map (fun text => (SharedStrings.newEntry text).tidy) ∧
        (calls ≠ [] →
          doc'.root.attr? "count" = some (toString (doc'.root.named "si").length) ∧
          doc'.root.attr? "uniqueCount" = some (toString (doc'.root.named "si").length))) ∧
    (first.strings.existed = false →
      (first.fillCalls options files calls).1.strings.table.toList = [] ∧
      (first.fillCalls options files calls).1.strings.isWritten = false) := by
  have hfirst : first.KeepsStrings first :=
    ⟨sound_ofPackage hnames hopen, stringsKnown_ofPackage hopen, rfl, rfl, rfl, .refl _⟩
  obtain ⟨hlast, hstored⟩ := hfirst.fillCalls calls hreports
  refine ⟨fun path doc hpath hdoc hworkbook hrels htypes hchain => ?_, hlast.not_begun⟩
  have hstrings := strings_ofPackage hopen hpath hdoc
  have hopened : first.strings.path = path := by rw [hstrings]; rfl
  have hapart : first.StringsApart := {
    existed := by rw [hstrings]; rfl
    workbook := by rwa [hopened]
    rels := by rwa [hopened]
    types := by rwa [hopened] }
  have hstored := hstored hapart
  rw [hopened] at hstored
  -- Without any call the part is as it was.
  obtain rfl | hne := eq_or_ne calls []
  · exact ⟨doc, [], (ofPackage_eq_ok.1 hopen).2.2.2 ▸ hdoc, (List.append_nil _).symm,
      (List.append_nil _).symm, fun hne => absurd rfl hne⟩
  generalize (first.fillCalls options files calls).1 = last at hlast hstored ⊢
  obtain ⟨added, hadded⟩ := hlast.grows
  have hread := Package.requireXml_of_get? (hstored hne hchain)
    (hlast.sound.strings.writable_document last.strings.table)
  have hentries : last.strings.document.tidy.root.named "si" =
      (doc.root.named "si" ++ added.map SharedStrings.newEntry).map Element.tidy := by
    rw [Document.tidy, Element.named_tidy]
    congr 1
    refine SharedStrings.named_si_grown hlast.sound.strings ?_ (by rw [← hstrings, hadded])
    rw [hlast.strings, hstrings]
  -- The entries that are written are as many as the texts.
  have hcount : last.strings.table.size = (last.strings.document.tidy.root.named "si").length := by
    have hsize : last.strings.table.size = last.strings.table.toList.length :=
      Array.length_toList.symm
    have htexts : first.strings.table.toList.length = (doc.root.named "si").length := by
      rw [hstrings, SharedStrings.ofDocument, StringTable.toList_ofList]
      simp
    rw [hsize, ← hadded, List.length_append, htexts]
    simp [hentries]
  obtain ⟨hcounted, hunique⟩ := last.strings.attr?_count_document
  refine ⟨last.strings.document.tidy, added, hread, hadded.symm, ?_, fun _ => ⟨?_, ?_⟩⟩
  · simp [hentries, Function.comp_def]
  · rw [← hcount, ← hcounted]
    exact Element.attr?_tidy ..
  · rw [← hcount, ← hunique]
    exact Element.attr?_tidy ..

/-- An entry with a run in bold and a phonetic run. -/
def richEntry : Element :=
  .ofChildren "si" [] [
    .ofChildren "r" [] [.ofChildren "rPr" [] [{ name := "b" }], .ofText "t" "bold"],
    .ofChildren "rPh" [("sb", "0"), ("eb", "4")] [.ofText "t" "phonetic"]]

/-- The shared strings of the samples: a rich text and a placeholder. -/
def richStrings : Document :=
  { root := .ofChildren "sst" [] [richEntry, .ofChildren "si" [] [.ofText "t" "${x}"]] }

/-- The documents of a workbook with these shared strings, of which a sheet shows the placeholder,
and with more relationships. -/
def richDocuments (more : List Element) : List (String × Document) :=
  [(Package.contentTypesPart, { root := { name := "Types" } }),
    ("xl/workbook.xml", { root := .ofChildren "workbook" [] [.ofChildren "sheets" [] [
      { name := "sheet", attributes := [("name", "Plan"), ("r:id", "plan")] }]] }),
    ("xl/_rels/workbook.xml.rels", { root := .ofChildren "Relationships" [] <| [
      workbookLink "plan" "worksheet" "plan.xml",
      workbookLink "strings" "sharedStrings" "strings.xml"] ++ more }),
    ("xl/strings.xml", richStrings),
    ("xl/plan.xml", { root := .ofChildren "worksheet" [] [.ofChildren "sheetData" [] [
      .ofChildren "row" [("r", "1")] [
        .ofChildren "c" [("r", "A1"), ("t", "s")] [.ofText "v" "1"]]]] })]

/-- Packages of the sample open with their texts. -/
private theorem opened_richDocuments (more : List Element)
    (h : ∀ part ∈ richDocuments more, part.2.Writable ∧ part.2.tidy = part.2 ∧ part.2.root.Named) :
    (Package.ofDocuments (richDocuments more)).UsesNames ∧
      ofPackage (.ofDocuments (richDocuments more)) = .ok (ofDocuments (richDocuments more)) ∧
      (Package.ofDocuments (richDocuments more)).requireXml "xl/strings.xml" = .ok richStrings := by
  have hread : ∀ part ∈ richDocuments more, part.2.Writable ∧ part.2.tidy = part.2 :=
    fun part hpart => ⟨(h part hpart).1, (h part hpart).2.1⟩
  exact ⟨Package.usesNames_ofDocuments h,
    ofPackage_ofDocuments hread rfl (by
      simp only [List.forall_mem_cons]
      exact ⟨rfl, rfl, rfl, List.forall_mem_nil _⟩),
    Package.requireXml_ofDocuments hread rfl⟩

/-- Two calls, of which the first adds a text and the second finds nothing to fill. -/
theorem rich_strings_survive_sample :
    ∃ (first last : Session) (reports : List Report) (doc : Document),
      (Package.ofDocuments (richDocuments [])).UsesNames ∧
      ofPackage (.ofDocuments (richDocuments [])) = .ok first ∧
      first.workbook.sharedStringsPath? = some "xl/strings.xml" ∧
      (Package.ofDocuments (richDocuments [])).requireXml "xl/strings.xml" = .ok richStrings ∧
      first.fillCalls {} (fun _ => none) [⟨.name "Plan", [("x", .text "new")]⟩,
        ⟨.name "Plan", [("x", .text "newer")]⟩] = (last, reports) ∧
      (∀ report ∈ reports, report.failure = none) ∧
      last.package.requireXml "xl/strings.xml" = .ok doc ∧
      (doc.root.named "si").map Element.tidy = [richEntry,
        .ofChildren "si" [] [.ofText "t" "${x}"], SharedStrings.newEntry "new"] ∧
      doc.root.attr? "count" = some "3" := by
  obtain ⟨hnames, hopen, hdoc⟩ := opened_richDocuments [] (by decide +kernel)
  have hpath : (ofDocuments (richDocuments [])).workbook.sharedStringsPath? =
      some "xl/strings.xml" := by decide +kernel
  have hapart : "xl/strings.xml" ≠ (ofDocuments (richDocuments [])).workbook.path ∧
      "xl/strings.xml" ≠ (ofDocuments (richDocuments [])).workbook.rels.path ∧
      (ofDocuments (richDocuments [])).strings.table.toList = ["bold", "${x}"] := by
    decide +kernel
  generalize hcalls : (ofDocuments (richDocuments [])).fillCalls {} (fun _ => none)
    [⟨.name "Plan", [("x", .text "new")]⟩, ⟨.name "Plan", [("x", .text "newer")]⟩] = result
  -- Both calls of the sample are evaluated.
  have hresult : (∀ report ∈ result.2, report.failure = none) ∧
      result.1.strings.table.toList = ["bold", "${x}", "new"] := by
    rw [← hcalls]
    decide +kernel
  obtain ⟨doc, added, hread, htable, hentries, hcounts⟩ := (rich_strings_survive {} (fun _ => none)
    hnames hopen _ (hcalls ▸ hresult.1)).1 _ _ hpath hdoc hapart.1 hapart.2.1 (by decide)
    (by decide)
  rw [hcalls] at hread htable
  rw [hresult.2, hapart.2.2] at htable
  obtain rfl : added = ["new"] := by simpa using htable.symm
  have hread' : (doc.root.named "si").map Element.tidy = [richEntry,
      .ofChildren "si" [] [.ofText "t" "${x}"], SharedStrings.newEntry "new"] :=
    hentries.trans (by decide +kernel)
  have hthree : (doc.root.named "si").length = 3 := by simpa using congrArg List.length hread'
  refine ⟨_, result.1, result.2, doc, hnames, hopen, hpath, hdoc, hcalls, hresult.1, hread, hread',
    (hcounts (by decide)).1.trans ?_⟩
  rw [hthree]
  rfl

/-- Where the order of calculation is linked to the part of the shared strings, a single call takes
the part away after it was written. -/
theorem strings_taken_for_order_of_calculation :
    ¬∀ (options : FillOptions) (files : ImageFiles) (package : Package) (first : Session)
        (path : String) (doc : Document) (calls : List FillCall),
      package.UsesNames → ofPackage package = .ok first →
      first.workbook.sharedStringsPath? = some path → package.requireXml path = .ok doc →
      calls ≠ [] → (∀ report ∈ (first.fillCalls options files calls).2, report.failure = none) →
      ∃ (doc' : Document) (added : List String),
        (first.fillCalls options files calls).1.package.requireXml path = .ok doc' ∧
        (first.fillCalls options files calls).1.strings.table.toList =
          first.strings.table.toList ++ added ∧
        (doc'.root.named "si").map Element.tidy = (doc.root.named "si").map Element.tidy ++
          added.map (fun text => (SharedStrings.newEntry text).tidy) ∧
        doc'.root.attr? "count" = some (toString (doc'.root.named "si").length) ∧
        doc'.root.attr? "uniqueCount" = some (toString (doc'.root.named "si").length) := by
  intro hall
  obtain ⟨hnames, hopen, hdoc⟩ :=
    opened_richDocuments [workbookLink "order" "calcChain" "strings.xml"] (by decide +kernel)
  generalize hfirst :
    ofDocuments (richDocuments [workbookLink "order" "calcChain" "strings.xml"]) = first at hopen
  -- The call of the sample succeeds, and the part is gone.
  have hresult : first.workbook.sharedStringsPath? = some "xl/strings.xml" ∧
      (∀ report ∈ (first.fillCalls {} (fun _ => none) [⟨.name "Plan", [("x", .text "new")]⟩]).2,
        report.failure = none) ∧
      (first.fillCalls {} (fun _ => none)
        [⟨.name "Plan", [("x", .text "new")]⟩]).1.package.get? "xl/strings.xml" = none := by
    rw [← hfirst]
    decide +kernel
  obtain ⟨hpath, hreports, hnone⟩ := hresult
  obtain ⟨doc', -, hread, -⟩ := hall {} (fun _ => none) _ first "xl/strings.xml" _ _ hnames hopen
    hpath hdoc (List.cons_ne_nil _ _) hreports
  -- The law says that the part can be read.
  obtain ⟨bytes, hbytes, -⟩ := Package.requireXml_eq_ok.1 hread
  cases hnone.symm.trans hbytes

end Session

end SheetTemplate
