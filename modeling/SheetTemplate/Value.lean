import SheetTemplate.Calendar
import SheetTemplate.Decimal.Shortest
import SheetTemplate.Text.Cut

/-!
# Values

What a placeholder is filled with. `Value.get?` looks a dotted path up in nested records,
`Value.text` is the form a value takes inside other text, and `Value.formula?` the expression of a
value that a cell computes.
-/

namespace SheetTemplate

/-- Where the bytes of a picture come from. -/
inductive ImageSource where
  | bytes (content : ByteArray)
  /-- Base64 text, perhaps behind a `data:` header. -/
  | base64 (text : String)
  /-- A file, below the image root if the path is relative. -/
  | path (file : String)

/-- A value for a placeholder. -/
inductive Value where
  | empty
  /-- Text; after an equal sign it is a formula. -/
  | text (s : String)
  | number (x : Decimal.Double)
  | bool (b : Bool)
  | date (d : DateTime)
  /-- An expression, with or without the equal sign. -/
  | formula (expression : String)
  | list (items : List Value)
  /-- A record; of two fields with one name the first counts. -/
  | record (fields : List (String × Value))
  | image (source : ImageSource)

instance : Inhabited Value := ⟨.empty⟩

/-- The values of one pass by placeholder name. -/
abbrev Substitutions := List (String × Value)

namespace Value

/-- Whether there is nothing to show: no value, or an empty text. -/
def isEmpty : Value → Bool
  | .empty => true
  | .text s => s == ""
  | _ => false

/-- The items of a list. -/
def items? : Value → Option (List Value)
  | .list items => some items
  | _ => none

/-- The text after a leading equal sign. -/
def afterEqual? (s : String) : Option String :=
  match s.toList with
  | '=' :: r => some (String.ofList r)
  | _ => none

/-- The expression of a value that a cell computes, without the equal sign. -/
def formula? : Value → Option String
  | .formula e => some ((afterEqual? e).getD e)
  | .text s => afterEqual? s
  | _ => none

/-- Follows field names into nested records. -/
def descend : Value → List String → Option Value
  | v, [] => some v
  | .record fields, name :: names =>
    match fields.lookup name with
    | some v => v.descend names
    | none => none
  | _, _ :: _ => none

/-- The value at a dotted path. -/
def get? (v : Value) (path : String) : Option Value :=
  v.descend ((Text.pieces '.' path.toList).map String.ofList)

mutual
/-- The form a value takes inside other text. Records and pictures have none. -/
def toText : Value → String
  | .empty => ""
  | .text s => s
  | .number x => Decimal.number x
  | .bool b => if b then "TRUE" else "FALSE"
  | .date d => Decimal.number d.serial
  | .formula e => if (afterEqual? e).isSome then e else "=" ++ e
  | .list items => ",".intercalate (toTexts items)
  | .record _ => ""
  | .image _ => ""

/-- The texts of several values. -/
def toTexts : List Value → List String
  | [] => []
  | v :: r => v.toText :: toTexts r
end

mutual
/-- All texts in a value, at any depth. -/
def texts : Value → List String
  | .text s => [s]
  | .list items => textsOfItems items
  | .record fields => textsOfFields fields
  | _ => []

/-- All texts in several values. -/
def textsOfItems : List Value → List String
  | [] => []
  | v :: r => v.texts ++ textsOfItems r

/-- All texts in the fields of a record. -/
def textsOfFields : List (String × Value) → List String
  | [] => []
  | (_, v) :: r => v.texts ++ textsOfFields r
end

end Value

/-- The value at a dotted path whose first name is the name of a placeholder. -/
def Substitutions.get? (values : Substitutions) (path : String) : Option Value :=
  (Value.record values).get? path

end SheetTemplate
