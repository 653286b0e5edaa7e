import SheetTemplate.Fill.Options
import SheetTemplate.Text.Cut
import SheetTemplate.Text.Numeral

/-!
# Arguments of the command

A command line is first cut into operands, flags and settings, which is where a value that is
missing or not wanted shows; then the items are put together to a request, and the request to an
invocation. What is given twice but counts once is refused, as is whatever is missing or unknown.
-/

namespace SheetTemplate.Command

open Text (after? cutFirst?)

/-- One item of a command line. -/
inductive Item where
  | operand (text : String)
  | flag (name : String)
  | setting (name value : String)
deriving DecidableEq, Repr

/-- The options of a command: flags, and settings with a value. -/
structure Grammar where
  flags : List String
  settings : List String
  /-- The letters that stand for options. -/
  letters : List (Char × String)

/-- Whether an argument is read as an option rather than as a value. -/
def isOption (arg : String) : Bool :=
  match arg.toList with
  | '-' :: _ :: _ => true
  | _ => false

/-- The options that end the reading of a command line. -/
def ends (name : String) : Bool := name == "help" || name == "version"

/-- Reads letters after a dash; `following` is the argument after them. Gives the items, and
whether the argument was taken as a value. -/
def readLetters (g : Grammar) (following : Option String) :
    List Char → Option (List Item × Bool)
  | [] => some ([], false)
  | c :: r => do
    let name ← g.letters.lookup c
    if g.flags.contains name then
      if ends name then return ([.flag name], false)
      let (items, taken) ← readLetters g following r
      return (.flag name :: items, taken)
    else
      -- What follows the letter of a setting is its value, else the next argument is.
      match r, following with
      | [], some value => if isOption value then none else some ([.setting name value], true)
      | [], none => none
      | '=' :: value, _ => some ([.setting name (String.ofList value)], false)
      | value, _ => some ([.setting name (String.ofList value)], false)

/-- Reads an option after two dashes; `following` is the argument after it. -/
def readWord (g : Grammar) (following : Option String) (word : List Char) :
    Option (Item × Bool) :=
  match cutFirst? '=' word with
  | some (name, value) =>
    let name := String.ofList name
    if g.settings.contains name then some (.setting name (String.ofList value), false) else none
  | none =>
    let name := String.ofList word
    if g.flags.contains name then some (.flag name, false)
    else if g.settings.contains name then
      match following with
      | some value => if isOption value then none else some (.setting name value, true)
      | none => none
    else none

/-- Whether items end with one that ends the reading. -/
def stops (items : List Item) : Bool :=
  match items.getLast? with
  | some (.flag name) => ends name
  | _ => false

/-- Reads the options that one argument gives. -/
def readOption (g : Grammar) (following : Option String) (arg : List Char) :
    Option (List Item × Bool) :=
  match arg with
  | '-' :: '-' :: word => (readWord g following word).map fun (item, taken) => ([item], taken)
  | '-' :: letters => readLetters g following letters
  | _ => none

/-- Cuts a command line into items. After two dashes alone there are only operands. The counter says
whether the next argument has been taken as a value already. -/
def items? (g : Grammar) : Bool → List String → Option (List Item)
  | _, [] => some []
  | true, _ :: args => items? g false args
  | false, arg :: args =>
    -- From here on nothing is an option.
    if arg = "--" then some (args.map .operand)
    else if isOption arg then
      match readOption g args.head? arg.toList with
      | some (items, taken) =>
        if stops items then some items else (items? g taken args).map (items ++ ·)
      | none => none
    else (items? g false args).map (.operand arg :: ·)

/-- The options before the name of a command. -/
def outerGrammar : Grammar where
  flags := ["verbose", "help", "version"]
  settings := []
  letters := [('v', "verbose"), ('h', "help"), ('V', "version")]

/-- The options of the listing commands. -/
def listGrammar : Grammar where
  flags := ["verbose", "help"]
  settings := []
  letters := [('v', "verbose"), ('h', "help")]

/-- The flags of the rendering command that set an option of a pass. -/
def optionFlags : List String :=
  ["move-images", "move-same-line-images", "substitute-all-table-rows", "push-down-page-breaks",
    "skip-broken-images", "strict-relationships"]

/-- The options of the rendering command. -/
def renderGrammar : Grammar where
  flags := ["verbose", "help"] ++ optionFlags
  settings := ["data", "output", "sheet", "image-ratio", "image-root"]
  letters := [('v', "verbose"), ('h', "help"), ('d', "data"), ('o', "output"), ('s', "sheet")]

/-- What a command line asks for. -/
inductive Invocation where
  | version
  | help
  | render (template data output : String) (sheets : List String) (options : FillOptions)
  | placeholders (template : String)
  | sheets (template : String)
deriving DecidableEq, Repr

/-- The values of a setting in order. -/
def valuesOf (items : List Item) (name : String) : List String :=
  items.filterMap fun
    | .setting n value => if n = name then some value else none
    | _ => none

/-- The operands in order. -/
def operandsOf (items : List Item) : List String :=
  items.filterMap fun
    | .operand text => some text
    | _ => none

/-- The value of a setting that may be given once; the outer option says whether it is not given
more often. -/
def single? (items : List Item) (name : String) : Option (Option String) :=
  match valuesOf items name with
  | [] => some none
  | [value] => some (some value)
  | _ => none

/-- A path, which may not be empty. -/
def path? (text : String) : Option String := if text = "" then none else some text

/-- The path of a setting that may be given once. -/
def settingPath? (items : List Item) (name : String) : Option (Option String) := do
  match ← single? items name with
  | some text => (path? text).map some
  | none => some none

/-- The operand, a path, of which there may be one. -/
def operand? (items : List Item) : Option (Option String) :=
  match operandsOf items with
  | [] => some none
  | [text] => (path? text).map some
  | _ => none

/-- The options of a pass that items set. -/
def options? (items : List Item) : Option FillOptions := do
  let has (name : String) : Bool := items.contains (.flag name)
  if optionFlags.any fun name => 1 < items.count (.flag name) then none
  let ratio ← match ← single? items "image-ratio" with
    | some text => Text.integer32? text.toList
    | none => some 100
  let root ← settingPath? items "image-root"
  return {
    moveImages := has "move-images"
    moveSameLineImages := has "move-same-line-images"
    imageRatio := ratio
    substituteAllTableRows := has "substitute-all-table-rows"
    pushDownPageBreaks := has "push-down-page-breaks"
    imageRoot := root
    skipBrokenImages := has "skip-broken-images"
    strictRelationships := has "strict-relationships" }

/-- What the items of a command line say. -/
structure Request where
  template : Option String
  data : Option String
  output : Option String
  sheets : List String
  options : FillOptions

/-- What items say; none if one of them is not wanted, however the command line goes on. -/
def request? (items : List Item) : Option Request := do
  let template ← operand? items
  let data ← settingPath? items "data"
  let output ← settingPath? items "output"
  let options ← options? items
  return { template, data, output, sheets := valuesOf items "sheet", options }

/-- The rendering that is asked for. -/
def Request.render? (r : Request) : Option Invocation :=
  return .render (← r.template) (← r.data) (← r.output) r.sheets r.options

/-- What the arguments after the name of a command ask for. A flag for help needs nothing else to be
there, but what stands before it has to be in order. -/
def commandOf? (g : Grammar) (make : Request → Option Invocation) (args : List String) :
    Option Invocation := do
  let items ← items? g false args
  let request ← request? items
  if stops items then some .help else make request

/-- The commands that help can be had for. -/
def commands : List String := ["render", "placeholders", "sheets", "help"]

/-- What the arguments after a call for help ask for. -/
def helpOf? : List String → Option Invocation
  | [] => some .help
  | [name] => if commands.contains name then some .help else none
  | _ => none

/-- What a command line asks for; none if it is not understood. -/
def parse? : List String → Option Invocation
  | [] => none
  | arg :: args =>
    if arg = "render" then commandOf? renderGrammar Request.render? args
    else if arg = "placeholders" then
      commandOf? listGrammar (fun r => r.template.map .placeholders) args
    else if arg = "sheets" then commandOf? listGrammar (fun r => r.template.map .sheets) args
    else if arg = "help" then helpOf? args
    else if isOption arg && arg != "--" then
      match readOption outerGrammar none arg.toList with
      | some (items, _) =>
        if stops items then
          some (if items.contains (.flag "version") then .version else .help)
        else parse? args
      | none => none
    else none

end SheetTemplate.Command
