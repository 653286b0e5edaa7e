import SheetTemplate.Text.Utf8

/-!
# Markup tokens

A part is cut into tags, text, sections and comments before any of them is interpreted. Tokens are
cut from glyphs, because bytes that are not UTF-8 matter only where a text is used.

A tag ends at the first closing bracket outside quotes, a comment at the first one after two
dashes, a section at the first one after two square brackets, and a document type at the bracket
that balances it. A tag that the input ends in is taken as it is.
-/

namespace SheetTemplate.Xml

open Text (Glyph)

/-- A unit of markup. -/
inductive Token where
  /-- What stands between the brackets of an opening tag. -/
  | opening (tag : List Glyph)
  /-- What stands between the brackets of a tag without content, less its slash. -/
  | lone (tag : List Glyph)
  /-- What follows the slash of a closing tag. -/
  | closing (name : List Glyph)
  | text (content : List Glyph)
  | cdata (content : List Glyph)
  | comment (content : List Glyph)
  | declaration
  /-- A document type or a processing instruction. -/
  | skipped
deriving DecidableEq, Repr

namespace Token

/-- Whether a glyph is a blank of markup. -/
def isBlank (g : Glyph) : Bool :=
  g == .char ' ' || g == .char '\r' || g == .char '\n' || g == .char '\t'

/-- What stands before the first closing bracket and after it. -/
def upToBracket (s : List Glyph) : List Glyph × List Glyph :=
  (s.takeWhile (· != .char '>'), (s.dropWhile (· != .char '>')).drop 1)

/-- What stands before the first closing bracket outside quotes and after it. `quote` is the quote
that is open, and `done` what has been passed, the last first. -/
def tagEnd (done : List Glyph) : Option Glyph → List Glyph → List Glyph × List Glyph
  | _, [] => (done.reverse, [])
  | none, g :: r =>
    if g = .char '>' then (done.reverse, r)
    else if g = .char '"' ∨ g = .char '\x27' then tagEnd (g :: done) (some g) r
    else tagEnd (g :: done) none r
  | some q, g :: r => tagEnd (g :: done) (if g = q then none else some q) r

/-- What stands before the first closing bracket that has `mark` twice before it and at least
`least` glyphs in all, and after it. `done` is what has been passed, the last first. -/
def markedEnd? (mark : Glyph) (least : Nat) (done : List Glyph) :
    List Glyph → Option (List Glyph × List Glyph)
  | [] => none
  | g :: r =>
    if g = .char '>' ∧ done.take 2 = [mark, mark] ∧ least ≤ done.length then some (done.reverse, r)
    else markedEnd? mark least (g :: done) r

/-- What stands before the closing bracket that balances an opened one, and after it. -/
def balancedEnd? (done : List Glyph) : Nat → List Glyph → Option (List Glyph × List Glyph)
  | _, [] => none
  | depth, g :: r =>
    if g = .char '<' then balancedEnd? (g :: done) (depth + 1) r
    else if g = .char '>' then
      match depth with
      | 0 => some (done.reverse, r)
      | depth + 1 => balancedEnd? (g :: done) depth r
    else balancedEnd? (g :: done) depth r

/-- What follows a word of upper-case letters and signs, taken without regard to case. -/
def afterWord? : List Char → List Glyph → Option (List Glyph)
  | [], s => some s
  | w :: ws, .char c :: r => if c.toUpper = w then afterWord? ws r else none
  | _ :: _, _ => none

/-- A comment, a section or a document type, given what follows the exclamation mark. -/
def marked? (s : List Glyph) : Option (Token × List Glyph) :=
  match s with
  | .char '[' :: _ => do
    let (content, rest) ← markedEnd? (.char ']') 0 [] s
    let body ← afterWord? "[CDATA[".toList content
    return (.cdata (body.take (body.length - 2)), rest)
  | .char '-' :: _ => do
    -- The dashes that open a comment cannot close it.
    let (content, rest) ← markedEnd? (.char '-') 4 [] s
    let body ← afterWord? "--".toList content
    return (.comment (body.take (body.length - 2)), rest)
  | .char c :: _ => do
    if c.toUpper != 'D' then none
    let (content, rest) ← balancedEnd? [] 0 s
    let body ← afterWord? "DOCTYPE".toList content
    if body.all isBlank then none
    return (.skipped, rest)
  | _ => none

/-- A declaration or a processing instruction, given what follows the question mark. -/
def instruction? (s : List Glyph) : Option (Token × List Glyph) :=
  let (content, rest) := upToBracket s
  match content.reverse with
  | .char '?' :: _ :: _ =>
    match content with
    | .char 'x' :: .char 'm' :: .char 'l' :: blank :: _ :: _ =>
      some (if isBlank blank then .declaration else .skipped, rest)
    | _ => some (.skipped, rest)
  | _ => none

/-- An opening tag or one without content, given what follows the bracket. -/
def tag (s : List Glyph) : Token × List Glyph :=
  let (content, rest) := tagEnd [] none s
  match content.reverse with
  | .char '/' :: r => (.lone r.reverse, rest)
  | _ => (.opening content, rest)

/-- The first token and what follows it. There is none where the input ends, a last opening bracket
included; the outer option says whether the input is markup at all. -/
def next? (s : List Glyph) : Option (Option (Token × List Glyph)) :=
  match s with
  | [] => some none
  | [.char '<'] => some none
  | .char '<' :: .char '!' :: r => (marked? r).map some
  | .char '<' :: .char '?' :: r => (instruction? r).map some
  | .char '<' :: .char '/' :: r => some (some (.closing (upToBracket r).1, (upToBracket r).2))
  | .char '<' :: r => some (some (tag r))
  | _ =>
    some (some (.text (s.takeWhile (· != .char '<')), s.dropWhile (· != .char '<')))

end Token

end SheetTemplate.Xml
