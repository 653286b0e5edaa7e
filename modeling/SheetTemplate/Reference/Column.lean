import SheetTemplate.Error
import SheetTemplate.Text.Numeral

/-!
# Column letters

Columns are counted from one and written in bijective base 26: `A` is 1, `Z` is 26, `AA` is 27.
There are no letters for zero. A column number read from letters fits 32 bits.
-/

namespace SheetTemplate.Column

open Text (max32)

/-- The value of a letter, from 1 to 26. -/
def letterValue (c : Char) : Nat := c.toUpper.toNat - 64

/-- Reads letters after a number already read; `letters` is the whole text, for the error. -/
def numberFrom (letters : List Char) : Nat → List Char → Except AddressFault Nat
  | n, [] => .ok n
  | n, c :: r =>
    if !c.isAlpha then .error (.badLetter c)
    else if n * 26 + letterValue c ≤ max32 then numberFrom letters (n * 26 + letterValue c) r
    else .error (.columnTooLarge (String.ofList letters))

/-- The column that letters of either case name. -/
def number (letters : List Char) : Except AddressFault Nat :=
  if letters.isEmpty then .error .emptyLetters else numberFrom letters 0 letters

/-- The upper-case letters of a column. -/
def letters (n : Nat) : List Char :=
  if n = 0 then [] else letters ((n - 1) / 26) ++ [Char.ofNat (65 + (n - 1) % 26)]
termination_by n
decreasing_by omega

/-- Zero has no letters. -/
@[simp]
theorem letters_zero : letters 0 = [] := by simp [letters]

/-- The last letter is that of the remainder, and the others are those of the quotient. -/
theorem letters_of_pos {n : Nat} (h : 0 < n) :
    letters n = letters ((n - 1) / 26) ++ [Char.ofNat (65 + (n - 1) % 26)] := by
  rw [letters, if_neg (by omega)]

end SheetTemplate.Column
