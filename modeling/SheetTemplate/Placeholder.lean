import SheetTemplate.Text.Cut

/-!
# Placeholders

A placeholder is written `${name}`, `${name.key}`, `${type:name.key}` or
`${type:name.key:subtype}`. Its body is a non-empty run of characters other than braces;
`Placeholder.bodies` finds all bodies of a text from left to right, and `extract` reads each of
them.
A placeholder is full if it is the whole text; only full ones expand into rows, columns or images.
-/

namespace SheetTemplate

open Text (pieces cutFirst?)

/-- What a placeholder stands for, by the type before its name. -/
inductive PlaceholderKind where
  /-- A value, or a list laid out to the right. -/
  | normal
  /-- A list laid out downwards, one row for each element. -/
  | table
  /-- A picture. -/
  | image
  /-- Any other type: always the text of a value. -/
  | other (word : String)
deriving DecidableEq, Repr, Inhabited

/-- The kind that a type names. -/
def PlaceholderKind.ofType (word : String) : PlaceholderKind :=
  if word = "" ∨ word = "normal" then .normal
  else if word = "table" then .table
  else if word = "image" then .image
  else .other word

/-- The type that a kind is listed under. -/
def PlaceholderKind.text : PlaceholderKind → String
  | .normal => "normal"
  | .table => "table"
  | .image => "image"
  | .other word => word

/-- One placeholder of a text. -/
structure Placeholder where
  kind : PlaceholderKind
  /-- The name of the value. -/
  name : String
  /-- The path below the name, after the first point. -/
  key : Option String
  /-- What the value is used as. -/
  subtype : Option String
  /-- The placeholder as it stands in the text. -/
  text : String
  /-- Whether it is the whole text. -/
  full : Bool
deriving DecidableEq, Repr, Inhabited

namespace Placeholder

/-- Whether a character is allowed in a body. -/
def isBodyChar (c : Char) : Bool := c != '{' && c != '}'

/-- The body of the placeholder that a text begins with, and the text after it. -/
def bodyAt? : List Char → Option (List Char × List Char)
  | '$' :: '{' :: r =>
    match r.takeWhile isBodyChar, r.dropWhile isBodyChar with
    | c :: body, '}' :: rest => some (c :: body, rest)
    | _, _ => none
  | _ => none

/-- What follows a body is shorter than the text. -/
theorem length_lt_of_bodyAt? {s body rest : List Char} (h : bodyAt? s = some (body, rest)) :
    rest.length < s.length := by
  unfold bodyAt? at h
  split at h
  · rename_i r
    split at h
    · rename_i hd
      obtain ⟨-, rfl⟩ := h
      have : (r.dropWhile isBodyChar).length ≤ r.length := (List.dropWhile_suffix _).length_le
      rw [hd] at this
      simp only [List.length_cons] at this ⊢
      omega
    · simp at h
  · simp at h

/-- The bodies of all placeholders, from left to right. -/
def bodies (s : List Char) : List (List Char) :=
  match h : bodyAt? s with
  | some (body, rest) =>
    have := length_lt_of_bodyAt? h
    body :: bodies rest
  | none =>
    match s with
    | [] => []
    | _ :: r => bodies r
termination_by s.length

/-- The placeholder as written with a body. -/
def written (body : List Char) : List Char := '$' :: '{' :: (body ++ ['}'])

/-- Splits a body into type, name with key, and subtype. Of several subtypes the last one that is
not empty counts. -/
def parts (body : List Char) : List Char × List Char × Option (List Char) :=
  match pieces ':' body with
  | [] => ([], [], none)
  | [path] => ([], path, none)
  | word :: path :: more => (word, path, more.reverse.find? (!·.isEmpty))

/-- Splits a path at its first point into a name and a key, which is dropped if empty. -/
def nameAndKey (path : List Char) : List Char × Option (List Char) :=
  match cutFirst? '.' path with
  | some (name, key) => (name, if key.isEmpty then none else some key)
  | none => (path, none)

/-- The placeholder with a body; none if it has no name. -/
def ofBody? (full : Bool) (body : List Char) : Option Placeholder :=
  let (word, path, subtype) := parts body
  let (name, key) := nameAndKey path
  if name.isEmpty then none
  else
    some {
      -- Without a type, the subtype alone asks for a picture.
      kind := if word.isEmpty && subtype == some "image".toList then .image
        else .ofType (String.ofList word)
      name := String.ofList name
      key := key.map String.ofList
      subtype := subtype.map String.ofList
      text := String.ofList (written body)
      full }

/-- All placeholders of a text, from left to right. -/
def extract (text : String) : List Placeholder :=
  let s := text.toList
  (bodies s).filterMap fun body => ofBody? (written body == s) body

/-- Name and key, as one dotted path. -/
def path (p : Placeholder) : String :=
  match p.key with
  | some key => p.name ++ "." ++ key
  | none => p.name

/-- Whether the value is to be used as a picture. -/
def wantsImage (p : Placeholder) : Bool := p.subtype == some "image"

end Placeholder

end SheetTemplate
