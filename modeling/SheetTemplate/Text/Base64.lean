/-!
# Base64

Decoding the standard alphabet. Four characters give three bytes; the last group is filled up with
one or two equal signs, and the bits it does not use have to be zero, so every byte sequence has
exactly one text.
-/

namespace SheetTemplate.Text.Base64

/-- The six bits that a character of the alphabet stands for. -/
def sextet? (c : Char) : Option Nat :=
  if 'A' ≤ c ∧ c ≤ 'Z' then some (c.toNat - 65)
  else if 'a' ≤ c ∧ c ≤ 'z' then some (c.toNat - 71)
  else if '0' ≤ c ∧ c ≤ '9' then some (c.toNat + 4)
  else if c = '+' then some 62
  else if c = '/' then some 63
  else none

/-- The one byte of a group that ends in two equal signs. -/
def oneByte? (a b : Char) : Option (List UInt8) := do
  let x ← sextet? a
  let y ← sextet? b
  if y % 16 = 0 then some [UInt8.ofNat (4 * x + y / 16)] else none

/-- The two bytes of a group that ends in one equal sign. -/
def twoBytes? (a b c : Char) : Option (List UInt8) := do
  let x ← sextet? a
  let y ← sextet? b
  let z ← sextet? c
  if z % 4 = 0 then some [UInt8.ofNat (4 * x + y / 16), UInt8.ofNat (16 * (y % 16) + z / 4)]
  else none

/-- The three bytes of a full group. -/
def threeBytes? (a b c d : Char) : Option (List UInt8) := do
  let x ← sextet? a
  let y ← sextet? b
  let z ← sextet? c
  let w ← sextet? d
  some [UInt8.ofNat (4 * x + y / 16), UInt8.ofNat (16 * (y % 16) + z / 4),
    UInt8.ofNat (64 * (z % 4) + w)]

/-- Decodes a text onto the bytes found so far. -/
def decodeOnto? (done : Array UInt8) : List Char → Option (Array UInt8)
  | [] => some done
  | [a, b, '=', '='] => (oneByte? a b).map fun bytes => done ++ bytes.toArray
  | [a, b, c, '='] => (twoBytes? a b c).map fun bytes => done ++ bytes.toArray
  | a :: b :: c :: d :: r =>
    match threeBytes? a b c d with
    | some bytes => decodeOnto? (done ++ bytes) r
    | none => none
  | _ => none

/-- The bytes that a text stands for. -/
def decode? (cs : List Char) : Option ByteArray := (decodeOnto? #[] cs).map ByteArray.mk

end SheetTemplate.Text.Base64
