/-!
# Whole numbers in decimal

Reading a decimal numeral with a bound on its value, and the digits of every script.
A natural numeral may carry a plus sign and leading zeros; an integer numeral either sign.

Numbers of rows, files, ids and shapes have 32 bits. They are added up in 32 bits as well: a sum
that does not fit begins again at zero.
-/

namespace SheetTemplate.Text

/-- The largest number of 32 bits. -/
def max32 : Nat := Nat.pow 2 32 - 1

/-- The largest number of 64 bits. -/
def max64 : Nat := Nat.pow 2 64 - 1

/-- The low 32 bits of a number. -/
def low32 (n : Nat) : Nat := n % Nat.pow 2 32

/-- The sum of two numbers in 32 bits. -/
def add32 (a b : Nat) : Nat := low32 (a + b)

/-- The number that a non-empty run of ASCII digits denotes. -/
def digits? (ds : List Char) : Option Nat :=
  if ds.isEmpty || !ds.all Char.isDigit then none else some (Nat.ofDigitChars 10 ds 0)

/-- The natural number at most `bound` that a numeral denotes, read after an optional plus sign. -/
def natural? (bound : Nat) (cs : List Char) : Option Nat :=
  let ds := match cs with
    | '+' :: r => r
    | _ => cs
  (digits? ds).filter (· ≤ bound)

/-- The integer of 64 bits that a numeral denotes, read after an optional sign. -/
def integer64? : List Char → Option Int
  | '-' :: r => ((digits? r).filter (· ≤ Nat.pow 2 63)).map fun n => -(n : Int)
  | cs => (natural? (Nat.pow 2 63 - 1) cs).map Int.ofNat

/-- The integer of 32 bits that a numeral denotes, read after an optional sign. -/
def integer32? : List Char → Option Int
  | '-' :: r => ((digits? r).filter (· ≤ Nat.pow 2 31)).map fun n => -(n : Int)
  | cs => (natural? (Nat.pow 2 31 - 1) cs).map Int.ofNat

/-- The natural number of 32 bits that a text denotes. -/
def natural32? (s : String) : Option Nat := natural? max32 s.toList

/-- The decimal digits of a number. -/
def numeral (n : Nat) : List Char := Nat.toDigits 10 n

/-- The zeros of Unicode's decimal digits (category `Nd`), each the first of ten in order. -/
def decimalZeros : List Nat :=
  [0x30, 0x660, 0x6F0, 0x7C0, 0x966, 0x9E6, 0xA66, 0xAE6, 0xB66, 0xBE6, 0xC66, 0xCE6, 0xD66, 0xDE6,
    0xE50, 0xED0, 0xF20, 0x1040, 0x1090, 0x17E0, 0x1810, 0x1946, 0x19D0, 0x1A80, 0x1A90, 0x1B50,
    0x1BB0, 0x1C40, 0x1C50, 0xA620, 0xA8D0, 0xA900, 0xA9D0, 0xA9F0, 0xAA50, 0xABF0, 0xFF10, 0x104A0,
    0x10D30, 0x10D40, 0x11066, 0x110F0, 0x11136, 0x111D0, 0x112F0, 0x11450, 0x114D0, 0x11650,
    0x116C0, 0x116D0, 0x116DA, 0x11730, 0x118E0, 0x11950, 0x11BF0, 0x11C50, 0x11D50, 0x11DA0,
    0x11F50, 0x16130, 0x16A60, 0x16AC0, 0x16B50, 0x16D70, 0x1CCF0, 0x1D7CE, 0x1D7D8, 0x1D7E2,
    0x1D7EC, 0x1D7F6, 0x1E140, 0x1E2F0, 0x1E4F0, 0x1E5F1, 0x1E950, 0x1FBF0]

/-- Whether a character is a decimal digit of some script. -/
def isDecimalDigit (c : Char) : Bool :=
  decimalZeros.any fun z => z ≤ c.toNat && c.toNat < z + 10

/-! ### Sums in 32 bits -/

/-- The power as it is evaluated. -/
theorem pow_two_32 : Nat.pow 2 32 = max32 + 1 := rfl

/-- What is kept of a number has 32 bits. -/
theorem low32_le (n : Nat) : low32 n ≤ max32 := by
  have hlt : n % Nat.pow 2 32 < Nat.pow 2 32 := Nat.mod_lt n (by decide)
  rw [pow_two_32] at hlt
  exact Nat.le_of_lt_succ hlt

/-- A number of 32 bits is its own low bits. -/
theorem low32_of_le {n : Nat} (h : n ≤ max32) : low32 n = n :=
  Nat.mod_eq_of_lt (Nat.lt_of_le_of_lt h (by decide))

/-- So has a sum. -/
theorem add32_le (a b : Nat) : add32 a b ≤ max32 := low32_le (a + b)

/-- A sum that fits is the sum. -/
theorem add32_of_le {a b : Nat} (h : a + b ≤ max32) : add32 a b = a + b := low32_of_le h

/-- Adding nothing changes nothing. -/
@[simp]
theorem add32_zero {a : Nat} (h : a ≤ max32) : add32 a 0 = a := low32_of_le h

/-- Only the low bits of what is added up count. -/
theorem add32_low32_left (a b : Nat) : add32 (low32 a) b = add32 a b := Nat.mod_add_mod ..

/-- What is added may be cut down to 32 bits before. -/
theorem add32_low32_right (a b : Nat) : add32 a (low32 b) = add32 a b := Nat.add_mod_mod ..

/-! ### Reading what is written -/

/-- The digits from 0 to 9 are decimal digits. -/
theorem isDecimalDigit_of_isDigit {c : Char} (h : c.isDigit) : isDecimalDigit c := by
  simp only [Char.isDigit, Bool.and_eq_true, decide_eq_true_eq] at h
  have h1 : 48 ≤ c.toNat := h.1
  have h2 : c.toNat ≤ 57 := h.2
  simp only [isDecimalDigit, decimalZeros, List.any_cons, Bool.or_eq_true, Bool.and_eq_true,
    decide_eq_true_eq]
  omega

/-- A numeral is written in those. -/
theorem isDigit_of_mem_numeral {n : Nat} {c : Char} (h : c ∈ numeral n) : c.isDigit :=
  Nat.isDigit_of_mem_toDigits (by decide) (by decide) h

/-- It has at least one. -/
theorem numeral_ne_nil (n : Nat) : numeral n ≠ [] := Nat.toDigits_ne_nil

/-- Reading the digits of a number gives the number. -/
@[simp]
theorem digits?_numeral (n : Nat) : digits? (numeral n) = some n := by
  have h : (numeral n).all Char.isDigit = true :=
    List.all_eq_true.2 fun _ h => isDigit_of_mem_numeral h
  rw [digits?, h, if_neg (by simp [numeral_ne_nil])]
  exact congrArg some (Nat.ofDigitChars_toDigits (by decide) (by decide))

/-- A numeral is read as its number. -/
theorem natural?_numeral {bound n : Nat} (h : n ≤ bound) : natural? bound (numeral n) = some n := by
  have hp : ∀ r, numeral n ≠ '+' :: r := fun r hr => by
    have := isDigit_of_mem_numeral (n := n) (c := '+') (by simp [hr])
    exact absurd this (by decide)
  unfold natural?
  split
  · rename_i r hr
    exact absurd hr (hp r)
  · simp [h]

end SheetTemplate.Text
