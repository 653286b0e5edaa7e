import SheetTemplate.Decimal.Read
import SheetTemplate.Text.Cut
import SheetTemplate.Text.Hexadecimal
import SheetTemplate.Value

/-!
# JSON data

Values are given to the command as a JSON object. A machine with an explicit stack of open arrays
and objects reads a text token by token; the depth of nesting is bounded. A later field of an object
replaces an earlier one of its name. A number is the double nearest to it; one that is too large is
refused.
-/

namespace SheetTemplate

/-- A JSON value. -/
inductive Json where
  | null
  | bool (b : Bool)
  | number (x : Decimal.Double)
  | string (s : String)
  | array (items : List Json)
  | object (fields : List (String × Json))

namespace Json

open Text (after? hexNumber?)

/-- The units of a JSON text. -/
inductive Token where
  | openArray | closeArray | openObject | closeObject | comma | colon
  | string (s : String)
  | value (v : Json)

/-- The character that a letter after a backslash stands for. -/
def escaped? : Char → Option Char
  | '"' => some '"'
  | '\\' => some '\\'
  | '/' => some '/'
  | 'b' => some '\x08'
  | 'f' => some '\x0c'
  | 'n' => some '\n'
  | 'r' => some '\r'
  | 't' => some '\t'
  | _ => none

/-- Reads a string after its opening quote; `acc` holds its characters so far, the last first. -/
def readString (acc : List Char) : List Char → Option (String × List Char)
  | '"' :: r => some (String.ofList acc.reverse, r)
  | '\\' :: 'u' :: a :: b :: c :: d :: '\\' :: 'u' :: e :: f :: g :: h :: r =>
    match hexNumber? [a, b, c, d], hexNumber? [e, f, g, h] with
    | some hi, some lo =>
      -- Two surrogates make one character; neither makes one alone.
      if 0xD800 ≤ hi ∧ hi < 0xDC00 then
        if 0xDC00 ≤ lo ∧ lo < 0xE000 then
          readString (Char.ofNat (0x10000 + (hi - 0xD800) * 0x400 + (lo - 0xDC00)) :: acc) r
        else none
      else if 0xDC00 ≤ hi ∧ hi < 0xE000 then none
      else readString (Char.ofNat hi :: acc) ('\\' :: 'u' :: e :: f :: g :: h :: r)
    | _, _ => none
  | '\\' :: 'u' :: a :: b :: c :: d :: r =>
    match hexNumber? [a, b, c, d] with
    | some n => if 0xD800 ≤ n ∧ n < 0xE000 then none else readString (Char.ofNat n :: acc) r
    | none => none
  | '\\' :: c :: r =>
    match escaped? c with
    | some ch => readString (ch :: acc) r
    | none => none
  | c :: r => if c.toNat < 0x20 ∨ c = '\\' then none else readString (c :: acc) r
  | [] => none

/-- Whether a character may stand in a number. -/
def isNumberChar (c : Char) : Bool := c.isDigit || ['+', '-', '.', 'e', 'E'].contains c

/-- Whether an unsigned number has digits before and after its point, and no zero to begin with but
a single one. -/
def isPlain (cs : List Char) : Bool :=
  let whole := cs.takeWhile Char.isDigit
  let fraction := match cs.dropWhile Char.isDigit with
    | '.' :: r => r.head?.any Char.isDigit
    | _ => true
  !whole.isEmpty && (whole.head? != some '0' || whole.length == 1) && fraction

/-- The finite double nearest to a number. -/
def number? (cs : List Char) : Option Decimal.Double :=
  let unsigned := match cs with
    | '-' :: r => r
    | _ => cs
  if isPlain unsigned then (Decimal.double? cs).filter (·.isFinite) else none

/-- Reads the token that a text begins with, given its first character. -/
def readToken (c : Char) (r : List Char) : Option (Token × List Char) :=
  if c = '[' then some (.openArray, r)
  else if c = ']' then some (.closeArray, r)
  else if c = '{' then some (.openObject, r)
  else if c = '}' then some (.closeObject, r)
  else if c = ',' then some (.comma, r)
  else if c = ':' then some (.colon, r)
  else if c = '"' then (readString [] r).map fun (s, rest) => (.string s, rest)
  else if c = 't' then (after? "rue".toList r).map (.value (.bool true), ·)
  else if c = 'f' then (after? "alse".toList r).map (.value (.bool false), ·)
  else if c = 'n' then (after? "ull".toList r).map (.value .null, ·)
  else
    let rest := r.dropWhile isNumberChar
    (number? (c :: r.takeWhile isNumberChar)).map fun x => (.value (.number x), rest)

/-- Whether a character may stand between tokens. -/
def isSpace (c : Char) : Bool := c == ' ' || c == '\n' || c == '\t' || c == '\r'

/-- An array or object that is not closed yet, with its parts so far, the last first. -/
inductive Frame where
  | items (done : List Json)
  | fields (done : List (String × Json)) (name : String)

/-- What has been read and what has to come. -/
inductive State where
  | value (stack : List Frame)
  /-- The first item of an array, or its end. -/
  | firstItem (stack : List Frame)
  /-- The name of a field, or the end of the object where that is allowed. -/
  | name (done : List (String × Json)) (mayEnd : Bool) (stack : List Frame)
  | colon (done : List (String × Json)) (name : String) (stack : List Frame)
  /-- A value has been read. -/
  | after (v : Json) (stack : List Frame)

/-- The number of arrays and objects that may be open at once. -/
def maxDepth : Nat := 127

/-- Adds a field in place of an earlier one of its name. -/
def putField (done : List (String × Json)) (name : String) (v : Json) : List (String × Json) :=
  (name, v) :: done.filter (·.1 != name)

/-- Begins a value. -/
def begin (stack : List Frame) : Token → Option State
  | .value v => some (.after v stack)
  | .string s => some (.after (.string s) stack)
  | .openArray => if stack.length < maxDepth then some (.firstItem stack) else none
  | .openObject => if stack.length < maxDepth then some (.name [] true stack) else none
  | _ => none

/-- Reads one token. -/
def step : State → Token → Option State
  | .value stack, token => begin stack token
  | .firstItem stack, .closeArray => some (.after (.array []) stack)
  | .firstItem stack, token => begin (.items [] :: stack) token
  | .name done _ stack, .string s => some (.colon done s stack)
  | .name done true stack, .closeObject => some (.after (.object done.reverse) stack)
  | .colon done s stack, .colon => some (.value (.fields done s :: stack))
  | .after v (.items done :: stack), .comma => some (.value (.items (v :: done) :: stack))
  | .after v (.items done :: stack), .closeArray =>
    some (.after (.array (v :: done).reverse) stack)
  | .after v (.fields done s :: stack), .comma => some (.name (putField done s v) false stack)
  | .after v (.fields done s :: stack), .closeObject =>
    some (.after (.object (putField done s v).reverse) stack)
  | _, _ => none

/-- Reads a text from a state on. Each token takes at least one character, so as many steps as
there are characters suffice. -/
def run (state : State) : Nat → List Char → Option State
  | _, [] => some state
  | 0, _ :: _ => none
  | steps + 1, c :: r =>
    if isSpace c then run state steps r
    else
      match readToken c r with
      | some (token, rest) =>
        match step state token with
        | some next => run next steps rest
        | none => none
      | none => none

/-- The value that a text denotes. -/
def parse? (cs : List Char) : Option Json :=
  match run (.value []) cs.length cs with
  | some (.after v []) => some v
  | _ => none

/-- The field of an object with a name. -/
def field? (j : Json) (name : String) : Option Json :=
  match j with
  | .object fields => fields.lookup name
  | _ => none

mutual
/-- A JSON value as a value for a placeholder. -/
def toValue : Json → Value
  | .null => .empty
  | .bool b => .bool b
  | .number x => .number x
  | .string s => .text s
  | .array items => .list (toValues items)
  | .object fields => .record (toFields fields)

/-- Several JSON values as values. -/
def toValues : List Json → List Value
  | [] => []
  | j :: r => j.toValue :: toValues r

/-- The fields of an object as the fields of a record. -/
def toFields : List (String × Json) → List (String × Value)
  | [] => []
  | (name, j) :: r => (name, j.toValue) :: toFields r
end

/-- The values that an object gives to placeholders. -/
def substitutions? : Json → Option Substitutions
  | .object fields => some (toFields fields)
  | _ => none

end Json

end SheetTemplate
