import SheetTemplate.Text.Hexadecimal

/-!
# Entities

`escape` writes the five characters that markup reserves as entities; `unescape?` reads entities
back. It knows the five names and character references in decimal and hexadecimal, and refuses any
other ampersand.
-/

namespace SheetTemplate.Xml.Entity

open Text (hexNumber?)

/-- The written form of a character in text and attribute values. -/
def escapeChar (c : Char) : List Char :=
  if c = '<' then "&lt;".toList
  else if c = '>' then "&gt;".toList
  else if c = '&' then "&amp;".toList
  else if c = '\x27' then "&apos;".toList
  else if c = '"' then "&quot;".toList
  else [c]

/-- The written form of a text. -/
def escape (cs : List Char) : List Char := cs.flatMap escapeChar

/-- The number that decimal digits denote; zero if there are none. -/
def decimalNumber? (ds : List Char) : Option Nat :=
  if ds.all Char.isDigit then some (Nat.ofDigitChars 10 ds 0) else none

/-- The number of a character reference, given what follows the number sign. A number has at most
seven decimal or six hexadecimal digits. -/
def codePoint? : List Char → Option Nat
  | 'x' :: ds => if ds.length ≤ 6 then hexNumber? ds else none
  | ds => if ds.length ≤ 7 then decimalNumber? ds else none

/-- The character that an entity stands for, given what stands between ampersand and semicolon. -/
def char? (body : List Char) : Option Char :=
  if body = ['l', 't'] then some '<'
  else if body = ['g', 't'] then some '>'
  else if body = ['a', 'm', 'p'] then some '&'
  else if body = ['a', 'p', 'o', 's'] then some '\x27'
  else if body = ['q', 'u', 'o', 't'] then some '"'
  else
    match body with
    | '#' :: digits =>
      match codePoint? digits with
      | some n => if h : n.isValidChar ∧ n ≠ 0 then some (Char.ofNatAux n h.1) else none
      | none => none
    | _ => none

/-- Reads a text with entities onto the characters found so far, the last first. The second
argument holds the body of an entity that has begun, the last character first. -/
def unescapeOnto? (done : List Char) : Option (List Char) → List Char → Option (List Char)
  | none, [] => some done.reverse
  | some _, [] => none
  | none, c :: r =>
    if c = '&' then unescapeOnto? done (some []) r else unescapeOnto? (c :: done) none r
  | some body, c :: r =>
    if c = ';' then
      match char? body.reverse with
      | some ch => unescapeOnto? (ch :: done) none r
      | none => none
    else if c = '&' then none
    else unescapeOnto? done (some (c :: body)) r

/-- The text that a written text stands for. -/
def unescape? (cs : List Char) : Option (List Char) := unescapeOnto? [] none cs

end SheetTemplate.Xml.Entity
