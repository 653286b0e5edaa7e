import SheetTemplate.Fill.Sheet

/-!
# Sessions

A session holds a package that is being filled, with its workbook, shared strings and content types.
A pass changes all of them as it goes, and may end early with some of its changes made. The session
is put back then to what it was before the pass, and the pass tells why it ended; the pictures it
left out are reported in both cases.
-/

namespace SheetTemplate

open Fill (Pass SkippedImage)

/-- A package that is being filled. -/
structure Session where
  package : Package
  workbook : Workbook
  strings : SharedStrings
  types : ContentTypes

/-- What a session was before a pass. -/
structure Snapshot where
  package : Package
  workbook : Workbook
  strings : SharedStrings
  types : ContentTypes

/-- Why a pass ended early, and the session as it left it. -/
structure Abort where
  error : Error
  left : Session
  skipped : List SkippedImage

/-- What a pass came to. -/
structure Report where
  /-- The sheet that could not be filled, and why. -/
  failure : Option (SheetSelector × Error) := none
  skipped : List SkippedImage := []

namespace Session

/-- Opens a package. -/
def ofPackage (package : Package) : Except Error Session := do
  let workbook ← Workbook.load package
  let strings ← SharedStrings.load package workbook.sharedStringsPath?
  let types ← ContentTypes.load package
  return { package, workbook, strings, types }

/-- The names of the sheets in order. -/
def sheetNames (s : Session) : List String := s.workbook.sheets.map (·.name)

/-- All placeholders of the string table in order. -/
def placeholders (s : Session) : List Placeholder :=
  s.strings.table.toList.flatMap Placeholder.extract

/-- What has to be kept of a session while a pass changes it. -/
def snapshot (s : Session) : Snapshot :=
  { package := s.package, workbook := s.workbook, strings := s.strings, types := s.types }

/-- Undoes what was changed since a snapshot. -/
def restore (s : Session) (before : Snapshot) : Session :=
  { s with
    package := before.package, workbook := before.workbook
    strings := before.strings, types := before.types }

/-- The session as a pass has changed it. -/
def during (s : Session) (p : Pass) : Session :=
  { s with
    package := p.package, workbook := p.workbook
    strings := { s.strings with table := p.strings }, types := p.types }

/-- Writes back what all sheets share. A step that fails leaves what was written before it. -/
def commit (s : Session) : Except (Error × Session) Session :=
  let s := { s with package := s.strings.write s.package }
  -- The first text of a workbook without shared strings makes the part known.
  match s.strings.register s.workbook.rels s.types with
  | .error e => .error (e, s)
  | .ok (rels, types) =>
    let (workbook, package, types) := { s.workbook with rels }.dropCalcChain s.package types
    .ok { s with package := types.save (workbook.save package), workbook, types }

/-- Reads the sheet that is asked for. Nothing is changed yet. -/
def startPass (s : Session) (selector : SheetSelector) : Except Error Pass := do
  let info ← s.workbook.findSheet selector
  Pass.start s.package s.workbook s.strings.table s.types info

/-- Makes a pass over a sheet that has been read, and writes back what all sheets share. -/
def runPass (options : FillOptions) (files : ImageFiles) (s : Session) (values : Substitutions)
    (p : Pass) : Except Abort (Session × List SkippedImage) :=
  match p.run options files values with
  | .error failure => .error ⟨failure.error, s.during failure.left, failure.left.skipped⟩
  | .ok p =>
    match (s.during p).commit with
    | .error (e, left) => .error ⟨e, left, p.skipped⟩
    | .ok next => .ok (next, p.skipped)

/-- Fills the sheet that is asked for. -/
def fill (options : FillOptions) (files : ImageFiles) (s : Session) (selector : SheetSelector)
    (values : Substitutions) : Session × Report :=
  match s.startPass selector with
  | .error e => (s, { failure := some (selector, e) })
  | .ok p =>
    let before := s.snapshot
    match s.runPass options files values p with
    | .ok (next, skipped) => (next, { skipped })
    | .error abort =>
      (abort.left.restore before,
        { failure := some (selector, abort.error), skipped := abort.skipped })

/-- Fills sheets one after another, up to the first that fails. -/
def fillEach (options : FillOptions) (files : ImageFiles) (values : Substitutions) (s : Session) :
    List SheetSelector → Session × Report
  | [] => (s, {})
  | selector :: selectors =>
    let (next, first) := s.fill options files selector values
    if first.failure.isSome then (next, first)
    else
      let (last, report) := next.fillEach options files values selectors
      (last, { report with skipped := first.skipped ++ report.skipped })

/-- Fills all sheets in order. -/
def fillAll (options : FillOptions) (files : ImageFiles) (s : Session) (values : Substitutions) :
    Session × Report :=
  s.fillEach options files values (s.sheetNames.map .name)

/-- Opens the package of a session anew, as it comes back from an archive. -/
def reopen (s : Session) : Except Error Session := do
  ofPackage (← s.package.reopen)

end Session

end SheetTemplate
