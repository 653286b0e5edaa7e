import Mathlib.Data.List.Nodup
import SheetTemplate.Fill.Session
import SheetTemplate.Proofs.StepResults
import SheetTemplate.Proofs.TwinPasses

/-!
# Passes that fail

A call that fails gives the session back as it was, wherever the pass ended: before its first row,
on a row with half its pictures stored, or while it was written back. So the calls that fail can be
left out of a sequence of calls, and the others come to the same.

A sheet is asked for by its name, and a pass does not change the list of sheets. If no two sheets
have the same name, every sheet of the list is therefore filled when all sheets are, in the order of
the list.

## Key results

- `fill_of_failure`: one call
- `sheets_of_runPass`: a pass keeps the list of sheets
- `failed_passes_leave_no_trace`: sequences of calls
-/

namespace SheetTemplate

open Fill (Pass SkippedImage TwinRelation)

/-- What is asked of a session in one call. -/
structure FillCall where
  selector : SheetSelector
  values : Substitutions

namespace Session

variable (options : FillOptions) (files : ImageFiles)

/-! ### Calls one after another -/

/-- The session after calls one after another, whatever comes of each, and all reports. -/
def fillCalls (s : Session) : List FillCall → Session × List Report
  | [] => (s, [])
  | call :: calls =>
    let (next, report) := s.fill options files call.selector call.values
    let (last, reports) := next.fillCalls calls
    (last, report :: reports)

/-- Those of the calls that succeed when all are made one after another. -/
def successful (s : Session) : List FillCall → List FillCall
  | [] => []
  | call :: calls =>
    let (next, report) := s.fill options files call.selector call.values
    if report.failure.isNone then call :: next.successful calls else next.successful calls

/-- Nothing is left of what was changed since a snapshot. -/
theorem restore_snapshot (s before : Session) : s.restore before.snapshot = before := rfl

/-- A call that fails leaves the session as it was. -/
theorem fill_of_failure {s : Session} {selector : SheetSelector} {values : Substitutions}
    (h : (s.fill options files selector values).2.failure.isNone = false) :
    (s.fill options files selector values).1 = s := by
  unfold fill at h ⊢
  -- A pass that cannot begin changes nothing, and any other failure restores the snapshot.
  cases hstart : s.startPass selector with
  | error e => rfl
  | ok p =>
    rw [hstart] at h
    dsimp only at h ⊢
    cases hrun : s.runPass options files values p with
    | error abort => exact restore_snapshot abort.left s
    | ok result =>
      rw [hrun] at h
      cases h

/-- A call that succeeds makes a pass over a sheet. -/
theorem fill_eq_ok {s next : Session} {selector : SheetSelector} {values : Substitutions}
    {report : Report}
    (h : s.fill options files selector values = (next, report)) (hreport : report.failure = none) :
    ∃ p, s.startPass selector = .ok p ∧
      s.runPass options files values p = .ok (next, report.skipped) := by
  unfold fill at h
  -- Only a pass that begins and runs to its end reports no failure.
  cases hstart : s.startPass selector with
  | error e =>
    rw [hstart] at h
    cases h
    cases hreport
  | ok p =>
    rw [hstart] at h
    dsimp only at h
    cases hrun : s.runPass options files values p with
    | error abort =>
      rw [hrun] at h
      cases h
      cases hreport
    | ok result =>
      rw [hrun] at h
      cases h
      exact ⟨p, rfl, hrun⟩

/-- Calls that fail can be left out. -/
private theorem fillCalls_successful (s : Session) (calls : List FillCall) :
    s.fillCalls options files (s.successful options files calls) =
      ((s.fillCalls options files calls).1,
        (s.fillCalls options files calls).2.filter (·.failure.isNone)) := by
  induction calls generalizing s with
  | nil => rfl
  | cons call calls ih =>
    rw [successful, fillCalls]
    dsimp only
    cases hfailure : (s.fill options files call.selector call.values).2.failure.isNone with
    | true =>
      rw [if_pos rfl, fillCalls, List.filter_cons, if_pos hfailure]
      dsimp only
      rw [ih]
    | false =>
      -- The calls after it are made on the session that was there before it.
      rw [if_neg (by simp), List.filter_cons, if_neg (by simp [hfailure]),
        fill_of_failure options files hfailure, ih]

/-! ### All sheets in order -/

/-- Fills a sheet of the list of sheets. -/
def passOver (s : Session) (values : Substitutions) (info : SheetInfo) :
    Except Abort (Session × List SkippedImage) :=
  match Pass.start s.package s.workbook s.strings.table s.types info with
  | .error error => .error { error, left := s, skipped := [] }
  | .ok p => s.runPass options files values p

/-- Fills sheets of the list of sheets one after another. The first that fails is the last that is
tried, and what was made of the sheets before it stays. -/
def fillSheets (values : Substitutions) (s : Session) : List SheetInfo → Session × Report
  | [] => (s, {})
  | info :: infos =>
    match s.passOver options files values info with
    | .ok (next, skipped) =>
      let (last, report) := next.fillSheets values infos
      (last, { report with skipped := skipped ++ report.skipped })
    | .error abort =>
      (s, { failure := some (.name info.name, abort.error), skipped := abort.skipped })

/-- Workbooks with given sheets. Of twin passes only the first is looked at. -/
private def listing (sheets : List SheetInfo) : TwinRelation where
  workbook w _ := w.sheets = sheets
  types _ _ := True
  strings _ := True
  moveNames _ h := h
  ensureDefault _ _ h := h
  ensureOverride _ _ h := h
  index _ h := h

/-- A pass leaves the list of sheets alone. -/
private theorem sheets_of_run {options : FillOptions} {files : ImageFiles}
    {values : Substitutions} {p q : Pass} (h : p.run options files values = .ok q) :
    q.workbook.sheets = p.workbook.sheets := by
  have hp : Pass.Twins (listing p.workbook.sheets) p p := .self rfl trivial trivial
  exact (Pass.twins_of_run h hp).workbook

/-- So does removing the order of calculation. -/
private theorem sheets_dropCalcChain (w : Workbook) (package : Package) (types : ContentTypes) :
    (w.dropCalcChain package types).1.sheets = w.sheets := by
  unfold Workbook.dropCalcChain
  split <;> rfl

/-- And so does a commit. -/
private theorem sheets_of_commit {s next : Session} (h : s.commit = .ok next) :
    next.workbook.sheets = s.workbook.sheets := by
  unfold commit at h
  dsimp only at h
  split at h
  · cases h
  · cases h
    exact sheets_dropCalcChain _ _ _

/-- A pass succeeds if it comes to its end and can be written back. -/
theorem runPass_eq_ok {s next : Session} {values : Substitutions} {p : Pass}
    {skipped : List SkippedImage} (h : s.runPass options files values p = .ok (next, skipped)) :
    ∃ q, p.run options files values = .ok q ∧ (s.during q).commit = .ok next := by
  unfold runPass at h
  -- The rows have to succeed, and so has the commit after them.
  cases hrun : p.run options files values with
  | error failure =>
    rw [hrun] at h
    cases h
  | ok q =>
    rw [hrun] at h
    dsimp only at h
    cases hcommit : (s.during q).commit with
    | error e =>
      rw [hcommit] at h
      cases h
    | ok last =>
      rw [hcommit] at h
      cases h
      exact ⟨q, rfl, hcommit⟩

/-- A pass keeps the list of sheets. -/
theorem sheets_of_runPass {s next : Session} {values : Substitutions} {p : Pass}
    {skipped : List SkippedImage} (h : s.runPass options files values p = .ok (next, skipped)) :
    next.workbook.sheets = p.workbook.sheets := by
  obtain ⟨q, hrun, hcommit⟩ := runPass_eq_ok options files h
  exact (sheets_of_commit hcommit).trans (sheets_of_run hrun)

/-- What a pass finds in the workbook is what the session has there. -/
theorem workbook_start {s : Session} {info : SheetInfo} {p : Pass}
    (h : Pass.start s.package s.workbook s.strings.table s.types info = .ok p) :
    p.workbook = s.workbook := by
  obtain ⟨sheet, tables, drawing, -, -, -, rfl⟩ := Pass.start_eq_ok h
  rfl

/-- So a whole pass leaves the list alone. -/
private theorem sheets_of_passOver {s next : Session} {values : Substitutions} {info : SheetInfo}
    {skipped : List SkippedImage}
    (h : s.passOver options files values info = .ok (next, skipped)) :
    next.workbook.sheets = s.workbook.sheets := by
  unfold passOver at h
  split at h
  · cases h
  · rename_i p hstart
    rw [sheets_of_runPass options files h, workbook_start hstart]

/-- Of sheets with different names, each is found by its own. -/
private theorem findSheet_name {w : Workbook} (h : (w.sheets.map (·.name)).Nodup)
    {info : SheetInfo} (hinfo : info ∈ w.sheets) : w.findSheet (.name info.name) = .ok info := by
  have hfind : w.sheets.find? (·.name == info.name) = some info := by
    cases hfound : w.sheets.find? (·.name == info.name) with
    | none => simpa using List.find?_eq_none.1 hfound info hinfo
    | some other =>
      have hname : other.name = info.name := by simpa using List.find?_some hfound
      rw [List.inj_on_of_nodup_map h (List.mem_of_find?_eq_some hfound) hinfo hname]
  rw [Workbook.findSheet, Workbook.sheet?, hfind]
  rfl

/-- A call for a sheet that is found fills this sheet. -/
private theorem fill_of_findSheet {s : Session} {selector : SheetSelector} {info : SheetInfo}
    (h : s.workbook.findSheet selector = .ok info) (values : Substitutions) :
    s.fill options files selector values =
      match s.passOver options files values info with
      | .ok (next, skipped) => (next, { skipped })
      | .error abort =>
        (s, { failure := some (selector, abort.error), skipped := abort.skipped }) := by
  have hstart : s.startPass selector =
      Pass.start s.package s.workbook s.strings.table s.types info := by
    rw [startPass, h]
    rfl
  -- A call is a pass over the sheet that it finds, with its failure reported under the selector.
  unfold fill passOver
  rw [hstart]
  cases Pass.start s.package s.workbook s.strings.table s.types info with
  | error e => rfl
  | ok p =>
    dsimp only
    cases s.runPass options files values p with
    | ok result => rfl
    | error abort => rfl

/-- Sheets with different names, asked for by them, are filled as they stand in the list. -/
private theorem fillEach_names (values : Substitutions) {s : Session}
    (h : s.sheetNames.Nodup) {infos : List SheetInfo} (hinfos : infos ⊆ s.workbook.sheets) :
    s.fillEach options files values (infos.map (.name ·.name)) =
      s.fillSheets options files values infos := by
  -- Sheet by sheet: the list stays the same, so the next name finds the next sheet.
  induction infos generalizing s with
  | nil => rfl
  | cons info infos ih =>
    obtain ⟨hinfo, hinfos⟩ := List.cons_subset.1 hinfos
    rw [List.map_cons, fillEach, fillSheets,
      fill_of_findSheet options files (findSheet_name h hinfo)]
    cases hpass : s.passOver options files values info with
    | error abort => rfl
    | ok result =>
      obtain ⟨next, skipped⟩ := result
      have hsheets := sheets_of_passOver options files hpass
      dsimp only
      rw [ih (by rwa [sheetNames, hsheets]) (by rwa [hsheets])]
      rfl

/-- Calls that fail leave no trace: the calls that succeed come to the same session without them,
and succeed again with the same reports. If no two sheets have the same name, all sheets are filled
by a pass over each in the order of the workbook, up to the first that fails, and what was made of
the sheets before that one stays. -/
theorem failed_passes_leave_no_trace (s : Session) :
    (∀ calls, s.fillCalls options files (s.successful options files calls) =
      ((s.fillCalls options files calls).1,
        (s.fillCalls options files calls).2.filter (·.failure.isNone))) ∧
    (s.sheetNames.Nodup → ∀ values, s.fillAll options files values =
      s.fillSheets options files values s.workbook.sheets) := by
  refine ⟨fillCalls_successful options files s, fun hnames values => ?_⟩
  rw [← fillEach_names options files values hnames (List.Subset.refl _), fillAll, sheetNames,
    List.map_map]
  rfl

/-- A session with a sheet that can be filled, one whose part is missing, and one after it. -/
def brokenSession : Session :=
  let sheet := Xml.Element.ofChildren "worksheet" [] [.ofChildren "sheetData" [] [
    .ofChildren "row" [("r", "1")] [.ofChildren "c" [("r", "A1"), ("t", "s")] [.ofText "v" "0"]]]]
  { package := ⟨[("first.xml", Xml.Document.toBytes { root := sheet }),
      ("last.xml", Xml.Document.toBytes { root := sheet })]⟩
    workbook := {
      path := "workbook.xml", doc := { root := { name := "workbook" } }
      rels := .empty "workbook.xml.rels"
      sheets := [⟨"First", none, "a", "first.xml"⟩, ⟨"Broken", none, "b", "broken.xml"⟩,
        ⟨"Last", none, "c", "last.xml"⟩] }
    strings := {
      path := "strings.xml", table := .ofList ["${x}"], read := [], root := { name := "sst" }
      existed := true }
    types := { doc := { root := { name := "Types" } } } }

/-- The first sheet stays filled, the second is reported, and the third is not tried. -/
theorem failed_passes_leave_no_trace_sample :
    (brokenSession.fillAll {} (fun _ => none) [("x", .text "new")]).2.failure =
        some (.name "Broken", .missingPart "broken.xml") ∧
      (brokenSession.fillAll {} (fun _ => none) [("x", .text "new")]).1.strings.table.toList =
        ["${x}", "new"] ∧
      (brokenSession.fillAll {} (fun _ => none) [("x", .text "new")]).1.package.get? "last.xml" =
        brokenSession.package.get? "last.xml" := by
  have hall := (failed_passes_leave_no_trace {} (fun _ => none) brokenSession).2
    (by decide +kernel) [("x", .text "new")]
  rw [hall]
  refine ⟨?_, ?_, ?_⟩ <;> decide +kernel

end Session

end SheetTemplate
