import SheetTemplate.Text.Hexadecimal

/-!
# Escaped code units

A shared string writes a character that markup cannot carry as `_xHHHH_`, four hexadecimal digits
of its code point between underscores. `decode` reads such escapes back, and `encode` writes control
characters so, as well as the underscore of a text that merely looks like an escape.
-/

namespace SheetTemplate.Text.CodeEscape

/-- The character with the given code point; none for a surrogate. -/
def char? (n : Nat) : Option Char := if h : n.isValidChar then some (Char.ofNatAux n h) else none

/-- Replaces every escape by its character; what only begins like an escape stays. -/
def decode : List Char → List Char
  | '_' :: 'x' :: a :: b :: c :: d :: '_' :: r =>
    match (hexNumber? [a, b, c, d]).bind char? with
    | some ch => ch :: decode r
    | none => '_' :: decode ('x' :: a :: b :: c :: d :: '_' :: r)
  | c :: r => c :: decode r
  | [] => []

/-- Whether a text begins with the form of an escape. -/
def isEscape : List Char → Bool
  | '_' :: 'x' :: a :: b :: c :: d :: '_' :: _ => (hexNumber? [a, b, c, d]).isSome
  | _ => false

/-- The escape of a code point below `0x10000`. -/
def escape (n : Nat) : List Char :=
  ['_', 'x', hexDigit (n / 4096), hexDigit (n / 256 % 16), hexDigit (n / 16 % 16),
    hexDigit (n % 16), '_']

/-- Whether a character is a control character other than tab and line ends. -/
def isHidden (c : Char) : Bool :=
  c.toNat < 0x20 && c != '\t' && c != '\n' && c != '\r'

/-- Escapes control characters and the underscore before what looks like an escape. -/
def encode : List Char → List Char
  | [] => []
  | c :: r =>
    if isEscape (c :: r) then escape '_'.toNat ++ encode r
    else if isHidden c then escape c.toNat ++ encode r
    else c :: encode r

end SheetTemplate.Text.CodeEscape
