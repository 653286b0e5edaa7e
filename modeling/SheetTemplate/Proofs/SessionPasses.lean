import SheetTemplate.Proofs.FailedPasses
import SheetTemplate.Proofs.PlainPasses
import SheetTemplate.Proofs.SessionParts

/-!
# Passes in sessions

A call that succeeds reads a sheet, makes a pass over it, and writes back what all sheets share. A
call that fails changes nothing, so whatever successful calls keep holds after any calls.

Shared strings that the package does not have are never written. They are without texts as long as
no pass finds a placeholder, and without texts no pass does. So what is written back never includes
a new part for them or a relationship to it, and writing back cannot fail.

## Key results

- `fillCalls_keep`: what every successful call keeps
- `written_of_fill`: what a successful call comes to
- `failure_of_run`, `fill_of_any`: a call succeeds if its pass does
-/

namespace SheetTemplate

open Fill (Pass)

/-! ### What a pass reads -/

/-- A sheet is read from its part, with its relationships if they can be read. -/
theorem Worksheet.load_eq_ok {package : Package} {info : SheetInfo} {sheet : Worksheet}
    (h : Worksheet.load package info = .ok sheet) :
    sheet.path = info.path ∧ package.requireXml sheet.path = .ok sheet.doc ∧
      sheet.rels =
        (Relationships.load? package (PartPath.relationshipsOf sheet.path)).toOption.join := by
  obtain ⟨doc, hdoc, rfl⟩ := map_eq_ok.1 h
  exact ⟨rfl, hdoc, rfl⟩

/-- The relationships of a sheet were read from their own part. -/
theorem Worksheet.load?_rels {package : Package} {info : SheetInfo} {sheet : Worksheet}
    (h : Worksheet.load package info = .ok sheet) {rels : Relationships}
    (hrels : sheet.rels = some rels) :
    Relationships.load? package (PartPath.relationshipsOf sheet.path) = .ok (some rels) := by
  rw [(Worksheet.load_eq_ok h).2.2] at hrels
  generalize Relationships.load? package _ = result at hrels ⊢
  cases result with
  | error e => cases hrels
  | ok o =>
    rw [show o = some rels from hrels]

/-- Every table is read from a part. -/
theorem Table.requireXml_of_loadAll {package : Package} {sheet : Worksheet} {tables : List Table}
    (h : Table.loadAll package sheet = .ok tables) {t : Table} (ht : t ∈ tables) :
    package.requireXml t.path = .ok t.doc := by
  unfold Table.loadAll at h
  split at h
  · dsimp only at h
    generalize (Xml.Element.named _ "tablePart").filterMap _ = targets at h
    -- Target by target, the table is read from its part.
    induction targets generalizing tables with
    | nil =>
      cases h
      cases ht
    | cons target targets ih =>
      rw [List.mapM_cons] at h
      obtain ⟨first, hfirst, h⟩ := bind_eq_ok.1 h
      obtain ⟨rest, hrest, h⟩ := bind_eq_ok.1 h
      cases h
      rcases List.mem_cons.1 ht with rfl | ht
      · obtain ⟨doc, hdoc, rfl⟩ := map_eq_ok.1 hfirst
        exact hdoc
      · exact ih ht hrest
  · cases h
    cases ht

/-- A drawing is read from a part, and its relationships unless they are missing. -/
theorem Drawing.load?_eq_some {package : Package} {sheet : Worksheet} {drawing : Drawing}
    (h : Drawing.load? package sheet = .ok (some drawing)) :
    package.requireXml drawing.path = .ok drawing.doc ∧
      drawing.rels.path = PartPath.relationshipsOf drawing.path ∧
      (package.requireXml drawing.rels.path = .ok drawing.rels.doc ∨
        package.get? drawing.rels.path = none ∧ drawing.rels = .empty drawing.rels.path) := by
  unfold Drawing.load? at h
  split at h
  · cases h
  · dsimp only at h
    obtain ⟨doc, hdoc, h⟩ := bind_eq_ok.1 h
    obtain ⟨rels, hrels, h⟩ := bind_eq_ok.1 h
    cases h
    refine ⟨hdoc, ?_⟩
    dsimp only
    -- The relationships of a drawing are read, or there are none and they are begun anew.
    cases rels with
    | some rels =>
      obtain ⟨hpath, hread⟩ := Relationships.load?_eq_some.1 hrels
      exact ⟨hpath, .inl (by rw [Option.getD_some, hpath]; exact hread)⟩
    | none =>
      refine ⟨rfl, .inr ⟨?_, rfl⟩⟩
      obtain ⟨o, ho, hnone⟩ := map_eq_ok.1 hrels
      cases o with
      | some d => cases hnone
      | none =>
        unfold Package.xml? at ho
        split at ho
        · obtain ⟨d, -, hd⟩ := map_eq_ok.1 ho
          cases hd
        · assumption

/-- Which sheet is found depends on the list of sheets only. -/
theorem Workbook.findSheet_congr {w w' : Workbook} (h : w'.sheets = w.sheets)
    (selector : SheetSelector) : w'.findSheet selector = w.findSheet selector := by
  unfold findSheet sheet? sheetById?
  rw [h]

namespace Session

variable {options : FillOptions} {files : ImageFiles} {values : Substitutions}

/-- A call starts with a sheet of the workbook, and with the session as it is. -/
theorem startPass_eq_ok {s : Session} {selector : SheetSelector} {p : Pass}
    (h : s.startPass selector = .ok p) :
    ∃ info sheet tables drawing, s.workbook.findSheet selector = .ok info ∧
      Worksheet.load s.package info = .ok sheet ∧ Table.loadAll s.package sheet = .ok tables ∧
      Drawing.load? s.package sheet = .ok drawing ∧
      p = { sheet, tables, drawing, strings := s.strings.table, workbook := s.workbook,
            package := s.package, types := s.types } := by
  obtain ⟨info, hinfo, h⟩ := bind_eq_ok.1 h
  obtain ⟨sheet, tables, drawing, hsheet, htables, hdrawing, rfl⟩ := Pass.start_eq_ok h
  exact ⟨info, sheet, tables, drawing, hinfo, hsheet, htables, hdrawing, rfl⟩

variable (options files) in
/-- What every successful call keeps holds after any calls. -/
theorem fillCalls_keep {I : Session → Prop}
    (hI : ∀ s next selector values report, I s →
      s.fill options files selector values = (next, report) → report.failure = none → I next)
    {s : Session} (hs : I s) (calls : List FillCall) :
    I (s.fillCalls options files calls).1 := by
  induction calls generalizing s with
  | nil => exact hs
  | cons call calls ih =>
    rw [fillCalls]
    refine ih ?_
    cases hfailure : (s.fill options files call.selector call.values).2.failure with
    | none => exact hI _ _ _ _ _ hs rfl hfailure
    | some failure =>
      rw [fill_of_failure options files (by rw [hfailure]; rfl)]
      exact hs

variable (options files) in
/-- No call changes which sheets there are. -/
theorem sheets_of_fill (s : Session) (selector : SheetSelector) (values : Substitutions) :
    (s.fill options files selector values).1.workbook.sheets = s.workbook.sheets := by
  cases hfailure : (s.fill options files selector values).2.failure with
  | some failure => rw [fill_of_failure options files (by rw [hfailure]; rfl)]
  | none =>
    obtain ⟨p, hstart, hpass⟩ := fill_eq_ok options files Prod.mk.eta.symm hfailure
    rw [sheets_of_runPass options files hpass]
    obtain ⟨_, _, _, _, -, -, -, -, rfl⟩ := startPass_eq_ok hstart
    rfl

/-! ### Shared strings that are not there -/

/-- The shared strings are a part of the package, or there are none. -/
def StringsKnown (s : Session) : Prop :=
  s.strings.existed = true ∨ s.strings.table.size = 0

/-- A session that is opened knows its strings. -/
theorem stringsKnown_ofPackage {p : Package} {s : Session} (h : ofPackage p = .ok s) :
    s.StringsKnown := by
  obtain ⟨-, hstrings, -, -⟩ := ofPackage_eq_ok.1 h
  unfold SharedStrings.load at hstrings
  split at hstrings
  · exact .inr (by rw [← Except.ok.inj hstrings]; rfl)
  · obtain ⟨doc, -, hstrings⟩ := map_eq_ok.1 hstrings
    cases doc with
    | some d => exact .inl (by rw [← hstrings]; rfl)
    | none => exact .inr (by rw [← hstrings]; rfl)

/-- There is nothing new to link. -/
private theorem register_of_known {s : Session} (h : s.StringsKnown) (rels : Relationships)
    (types : ContentTypes) : s.strings.register rels types = .ok (rels, types) := by
  unfold SharedStrings.register
  refine if_pos ?_
  rcases h with hexisted | hempty
  · simp [hexisted]
  · cases hexisted : s.strings.existed <;> simp [SharedStrings.isWritten, hempty, hexisted]

/-- With strings that are known the session is written back. -/
theorem commit_of_known {s : Session} (h : s.StringsKnown) :
    s.commit = .ok (s.written s.workbook.rels s.types) := by
  unfold commit written
  dsimp only
  rw [register_of_known h]

/-- A pass adds no shared strings where there are none. -/
private theorem known_during {s : Session} (hs : s.StringsKnown) {selector : SheetSelector}
    {p q : Pass} (hstart : s.startPass selector = .ok p)
    (hrun : p.run options files values = .ok q) : (s.during q).StringsKnown := by
  refine hs.imp id fun hempty => ?_
  obtain ⟨info, sheet, tables, drawing, -, -, -, -, rfl⟩ := startPass_eq_ok hstart
  show q.strings.size = 0
  rw [Pass.strings_of_run_of_empty hempty hrun]
  exact hempty

/-- What a call comes to that succeeds. -/
theorem written_of_fill {s next : Session} {selector : SheetSelector} {report : Report}
    (hs : s.StringsKnown) (h : s.fill options files selector values = (next, report))
    (hreport : report.failure = none) :
    ∃ p q, s.startPass selector = .ok p ∧ p.run options files values = .ok q ∧
      next = (s.during q).written q.workbook.rels q.types ∧ next.StringsKnown := by
  obtain ⟨p, hstart, hpass⟩ := fill_eq_ok options files h hreport
  obtain ⟨q, hrun, hcommit⟩ := runPass_eq_ok options files hpass
  have hknown := known_during hs hstart hrun
  rw [commit_of_known hknown] at hcommit
  cases hcommit
  exact ⟨p, q, hstart, hrun, rfl, hknown⟩

/-- A call succeeds if its pass does. -/
theorem failure_of_run {s : Session} (hs : s.StringsKnown) {selector : SheetSelector} {p q : Pass}
    (hstart : s.startPass selector = .ok p) (hrun : p.run options files values = .ok q) :
    (s.fill options files selector values).2.failure = none := by
  unfold fill
  rw [hstart]
  dsimp only
  unfold runPass
  rw [hrun]
  dsimp only
  rw [commit_of_known (known_during hs hstart hrun)]

variable (options files values) in
/-- A call succeeds if running its pass finds that it does. -/
theorem fill_of_any {s : Session} (hs : s.StringsKnown) {selector : SheetSelector} {p : Pass}
    (hstart : s.startPass selector = .ok p) {P : Pass → Bool}
    (hrun : (p.run options files values).toOption.any P = true) :
    ∃ (q : Pass) (report : Report), p.run options files values = .ok q ∧ P q = true ∧
      ((s.during q).written q.workbook.rels q.types).StringsKnown ∧ report.failure = none ∧
      s.fill options files selector values =
        ((s.during q).written q.workbook.rels q.types, report) := by
  obtain ⟨q, hq, hP⟩ := (Option.any_eq_true _ _).1 hrun
  -- The run is evaluated first, and with known strings nothing after it can fail.
  cases hpass : p.run options files values with
  | error e => simp [hpass, Except.toOption] at hq
  | ok q' =>
    simp only [hpass, Except.toOption, Option.some_inj] at hq
    subst hq
    have hfailure := failure_of_run hs hstart hpass
    obtain ⟨p₁, q₁, hp, hq, hnext, hknown⟩ := written_of_fill hs Prod.mk.eta.symm hfailure
    cases hstart.symm.trans hp
    cases hpass.symm.trans hq
    rw [hnext] at hknown
    exact ⟨q', _, rfl, hP, hknown, hfailure, Prod.ext hnext rfl⟩

end Session

end SheetTemplate
