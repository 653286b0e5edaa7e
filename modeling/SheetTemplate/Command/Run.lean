import SheetTemplate.Command.Arguments
import SheetTemplate.Command.FileTree
import SheetTemplate.Command.Json
import SheetTemplate.Fill.Session

/-!
# Running the command

`run` answers a command line: what is printed, which pictures were left out, which file is written
and with what code the command ends. Reading and writing themselves are left to whoever runs it.
-/

namespace SheetTemplate.Command

/-- What a command comes to. -/
structure Outcome where
  /-- Zero for success, one for an error, two for a command line that is not understood. -/
  code : Nat := 0
  stdout : String := ""
  /-- What failed. -/
  error : Option String := none
  /-- Why it failed. -/
  causes : List String := []
  /-- The pictures that were left out. -/
  skipped : List String := []
  /-- The path that was written, and what. -/
  written : Option (String × Package) := none

/-- The outcome of a failure. -/
def Outcome.failed (error : String) (causes skipped : List String) : Outcome :=
  { code := 1, error := some error, causes, skipped }

/-- The outcome where the result could not be written to a path. -/
def Outcome.unwritten (output : String) (skipped : List String) : Outcome :=
  .failed s!"Failed to write '{output}'" [Error.file.message] skipped

/-- The lines in which a command tells what it did, and what went wrong. -/
def Outcome.messages (o : Outcome) : List String :=
  let causes := if o.causes.isEmpty then [] else "" :: "Caused by:" :: o.causes.map ("    " ++ ·)
  o.skipped.map ("skipped image " ++ ·) ++
    (match o.error with
      | some error => s!"Error: {error}" :: causes
      | none => []) ++
    (match o.written with
      | some (path, _) => [s!"Wrote '{path}'"]
      | none => [])

/-- The name and version of the command. -/
def versionText : String := "sheetfill 0.1.0"

/-- How a picture that is left out is named. -/
def describe : ImageSource → String
  | .path file => s!"'{file}'"
  | .bytes content => s!"({content.size} bytes)"
  | .base64 text => s!"(base64, {text.utf8ByteSize} chars)"

/-- Opens the workbook at a path. -/
def openSession (disk : Disk) (path : String) : Except Error Session :=
  match disk.find? path with
  | none => .error .file
  | some .directory => .error .archive
  | some (.bytes content) => do Session.ofPackage (← Package.ofBytes content)
  | some (.package p) => do Session.ofPackage (← p.reopen)

/-- Opens a workbook for listing. -/
def withSession (disk : Disk) (path : String) (list : Session → String) : Outcome :=
  match openSession disk path with
  | .ok session => { stdout := list session }
  | .error e => .failed s!"Failed to open '{path}'" [e.message] []

/-- One line for each sheet: position and name. -/
def listSheets (session : Session) : String :=
  String.join (session.sheetNames.zipIdx.map fun (name, i) => s!"{i}\t{name}\n")

/-- The line for a placeholder: kind, path with subtype, and text. -/
def placeholderLine (p : Placeholder) : String :=
  let subtype := match p.subtype with
    | some s => ":" ++ s
    | none => ""
  p.kind.text ++ "\t" ++ p.path ++ subtype ++ "\t" ++ p.text ++ "\n"

/-- One line for each placeholder. -/
def listPlaceholders (session : Session) : String :=
  String.join (session.placeholders.map placeholderLine)

/-- The values in the data file at a path. -/
def readValues (disk : Disk) (path : String) : Except Outcome Substitutions :=
  let invalid (causes : List String) := Outcome.failed s!"Invalid data file '{path}'" causes []
  match disk.text? path with
  | none => .error (.failed s!"Failed to read '{path}'" [] [])
  | some text =>
    match Json.parse? text.toList with
    | none => .error (invalid [])
    | some json =>
      match json.substitutions? with
      | some values => .ok values
      | none => .error (invalid ["expected a JSON object at the top level"])

/-- Fills the sheets that are asked for, or all of them. -/
def fillSheets (disk : Disk) (session : Session) (sheets : List String) (options : FillOptions)
    (values : Substitutions) : Session × Report :=
  if sheets.isEmpty then session.fillAll options disk.bytes? values
  else session.fillEach options disk.bytes? values (sheets.map .name)

/-- What failed when sheets were filled: a sheet that was asked for, or the template as a whole. -/
def fillFailure (sheets : List String) (selector : SheetSelector) : String :=
  if sheets.isEmpty then "Failed to fill template" else s!"Failed to fill sheet '{selector.text}'"

/-- Fills a template and writes the result. -/
def render (disk : Disk) (template data output : String) (sheets : List String)
    (options : FillOptions) : Outcome :=
  -- The data is read first, so a fault in it wins over one in the template.
  match readValues disk data with
  | .error outcome => outcome
  | .ok values =>
    match openSession disk template with
    | .error e => .failed s!"Failed to open '{template}'" [e.message] []
    | .ok session =>
      let (filled, report) := fillSheets disk session sheets options values
      let skipped := report.skipped.map (describe ·.source)
      match report.failure with
      | some (selector, e) => .failed (fillFailure sheets selector) [e.message] skipped
      | none =>
        if disk.canWrite output then { skipped, written := some (output, filled.package) }
        else .unwritten output skipped

/-- The data file of a command line. -/
def dataFile? (args : List String) : Option String :=
  match parse? args with
  | some (.render _ data _ _ _) => some data
  | _ => none

/-- The values in the data file of a command line, none if they cannot be read. -/
def valuesFor (disk : Disk) (args : List String) : Substitutions :=
  match dataFile? args with
  | some path => (readValues disk path).toOption.getD []
  | none => []

/-- The other files that a command line may read: the template, and whatever a text among the values
names. -/
def filesFor (args : List String) (values : Substitutions) : List String :=
  match parse? args with
  | some (.placeholders template) | some (.sheets template) => [template]
  | some (.render template _ _ _ options) =>
    template :: (Value.record values).texts.map (Image.below options.imageRoot)
  | _ => []

/-- Answers a command line. -/
def run (disk : Disk) (args : List String) : Outcome :=
  match parse? args with
  | none => { code := 2 }
  | some .version => { stdout := versionText ++ "\n" }
  | some .help => { stdout := "Fill XLSX templates with data\n" }
  | some (.placeholders template) => withSession disk template listPlaceholders
  | some (.sheets template) => withSession disk template listSheets
  | some (.render template data output sheets options) =>
    render disk template data output sheets options

end SheetTemplate.Command
