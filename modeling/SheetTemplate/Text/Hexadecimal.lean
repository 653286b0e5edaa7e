/-!
# Hexadecimal digits

Numbers and bytes in digits to the base sixteen. Digits of either case are read, and the upper-case
ones are written. `hexBytes?_flatMap_hexPair` says that bytes are read back from what is written.
-/

namespace SheetTemplate.Text

/-- The value of a digit of either case. -/
def hexValue? (c : Char) : Option Nat :=
  if '0' ≤ c ∧ c ≤ '9' then some (c.toNat - 48)
  else if 'a' ≤ c ∧ c ≤ 'f' then some (c.toNat - 87)
  else if 'A' ≤ c ∧ c ≤ 'F' then some (c.toNat - 55)
  else none

/-- The upper-case digit of a value below sixteen. -/
def hexDigit (n : Nat) : Char :=
  if n < 10 then Char.ofNat (48 + n) else Char.ofNat (55 + n)

/-- The number that digits denote; zero if there are none. -/
def hexNumber? (ds : List Char) : Option Nat :=
  ds.foldlM (fun n c => (hexValue? c).map (16 * n + ·)) 0

/-- The byte that two digits denote. -/
def hexByte? (a b : Char) : Option UInt8 := (hexNumber? [a, b]).map UInt8.ofNat

/-- The two digits of a byte. -/
def hexPair (b : UInt8) : List Char := [hexDigit (b.toNat / 16), hexDigit (b.toNat % 16)]

/-- The bytes that pairs of digits denote. -/
def hexBytes? : List Char → Option (List UInt8)
  | [] => some []
  | [_] => none
  | a :: b :: r => do
    let byte ← hexByte? a b
    return byte :: (← hexBytes? r)

/-- A digit is read as the number it was written for. -/
@[simp]
theorem hexValue?_hexDigit {n : Nat} (h : n < 16) : hexValue? (hexDigit n) = some n := by
  have all : ∀ i : Fin 16, hexValue? (hexDigit i) = some i.val := by decide
  exact all ⟨n, h⟩

/-- A byte is read back from its two digits. -/
@[simp]
theorem hexByte?_hexDigit (b : UInt8) :
    hexByte? (hexDigit (b.toNat / 16)) (hexDigit (b.toNat % 16)) = some b := by
  have high : b.toNat / 16 < 16 := by have := b.toNat_lt; omega
  have low : b.toNat % 16 < 16 := Nat.mod_lt _ (by decide)
  have whole : 16 * (b.toNat / 16) + b.toNat % 16 = b.toNat := Nat.div_add_mod ..
  simp [hexByte?, hexNumber?, high, low, whole]

/-- Bytes in pairs of digits are read back. -/
@[simp]
theorem hexBytes?_flatMap_hexPair (bytes : List UInt8) :
    hexBytes? (bytes.flatMap hexPair) = some bytes := by
  induction bytes with
  | nil => rfl
  | cons b r ih =>
    rw [List.flatMap_cons, hexPair, List.cons_append, List.cons_append, List.nil_append]
    simp [hexBytes?, ih]

end SheetTemplate.Text
