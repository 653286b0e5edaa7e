/-!
# White space

`isBlank` is Unicode's `White_Space` property; `trim` drops blanks from both ends of a text.
Blanks decide where a cell reference, an index or an image payload begins and ends.
-/

namespace SheetTemplate.Text

/-- The characters with Unicode's `White_Space` property. -/
def isBlank (c : Char) : Bool :=
  let n := c.toNat
  (0x09 ≤ n && n ≤ 0x0D) || n == 0x20 || n == 0x85 || n == 0xA0 || n == 0x1680 ||
    (0x2000 ≤ n && n ≤ 0x200A) || n == 0x2028 || n == 0x2029 || n == 0x202F || n == 0x205F ||
    n == 0x3000

/-- Drops the blanks at both ends. -/
def trim (cs : List Char) : List Char :=
  ((cs.dropWhile isBlank).reverse.dropWhile isBlank).reverse

/-- Nothing is left of nothing. -/
@[simp]
theorem trim_nil : trim [] = [] := rfl

end SheetTemplate.Text
