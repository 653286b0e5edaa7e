/-!
# Bytes as characters

`glyphs` reads bytes as UTF-8 and keeps what is not UTF-8 as malformed runs, so that a document can
be cut into its parts before anyone asks whether a part is well formed. `strict?` then accepts only
characters, and `lossy` puts U+FFFD for each malformed run.
-/

namespace SheetTemplate.Text

/-- One unit of decoded text: a character, or a run of bytes that begin none. -/
inductive Glyph where
  | char (c : Char)
  | malformed (bytes : List UInt8)
deriving DecidableEq, Repr, Inhabited

namespace Utf8

/-- The character that the bytes begin with. -/
def charAt? (bytes : List UInt8) : Option Char :=
  (bytes.take 4).toByteArray.utf8DecodeChar? 0

/-- Whether a byte can only continue a character. -/
def isContinuation (b : UInt8) : Bool := 0x80 ≤ b && b ≤ 0xBF

/-- Whether a byte may stand second after the lead byte of a three-byte character. -/
def isSecondOfThree (lead b : UInt8) : Bool :=
  if lead == 0xE0 then 0xA0 ≤ b && b ≤ 0xBF
  else if lead == 0xED then 0x80 ≤ b && b ≤ 0x9F
  else 0xE1 ≤ lead && lead ≤ 0xEF && isContinuation b

/-- Whether a byte may stand second after the lead byte of a four-byte character. -/
def isSecondOfFour (lead b : UInt8) : Bool :=
  if lead == 0xF0 then 0x90 ≤ b && b ≤ 0xBF
  else if lead == 0xF4 then 0x80 ≤ b && b ≤ 0x8F
  else 0xF1 ≤ lead && lead ≤ 0xF3 && isContinuation b

/-- How many bytes go into one malformed run: the longest start of a character, at least one. -/
def malformedLength : List UInt8 → Nat
  | lead :: second :: third :: _ =>
    if isSecondOfThree lead second then 2
    else if isSecondOfFour lead second then (if isContinuation third then 3 else 2)
    else 1
  | [lead, second] => if isSecondOfThree lead second || isSecondOfFour lead second then 2 else 1
  | _ => 1

/-- The unit that begins the bytes and how many of them it takes. -/
def next (bytes : List UInt8) : Glyph × Nat :=
  match bytes with
  | [] => (.malformed [], 1)
  | b :: _ =>
    if b < 0x80 then (.char (Char.ofNat b.toNat), 1)
    else
      match charAt? bytes with
      | some c => (.char c, c.utf8Size)
      | none => (.malformed (bytes.take (malformedLength bytes)), malformedLength bytes)

/-- Decodes bytes onto the units found so far; the counter says how many bytes of the last unit are
still to be passed. -/
def decodeOnto (done : Array Glyph) : Nat → List UInt8 → Array Glyph
  | _, [] => done
  | passed + 1, _ :: r => decodeOnto done passed r
  | 0, b :: r =>
    let (glyph, size) := next (b :: r)
    decodeOnto (done.push glyph) (size - 1) r

/-- The units that bytes decode to. -/
def glyphs (bytes : List UInt8) : List Glyph := (decodeOnto #[] 0 bytes).toList

/-- The characters, if all units are characters. -/
def strict? : List Glyph → Option (List Char)
  | [] => some []
  | .char c :: r => (strict? r).map (c :: ·)
  | .malformed _ :: _ => none

/-- The characters, with U+FFFD for every malformed run. -/
def lossy : List Glyph → List Char :=
  List.map fun
    | .char c => c
    | .malformed _ => '\uFFFD'

/-- The bytes of a text. -/
def encode (cs : List Char) : List UInt8 := cs.flatMap String.utf8EncodeChar

/-- Characters are accepted as they are. -/
@[simp]
theorem strict?_map_char (cs : List Char) : strict? (cs.map .char) = some cs := by
  induction cs with
  | nil => rfl
  | cons c r ih => simp [strict?, ih]

/-- They are kept as well. -/
@[simp]
theorem lossy_map_char (cs : List Char) : lossy (cs.map .char) = cs := by
  simp [lossy, Function.comp_def]

end Utf8

end SheetTemplate.Text
