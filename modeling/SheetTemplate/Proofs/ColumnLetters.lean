import Mathlib.Data.List.Induction
import Mathlib.Data.Nat.Digits.Defs
import SheetTemplate.Reference.Column

/-!
# Column letters and numbers

Columns are numbered in bijective base 26: every word of letters is the name of one column, and
every column but zero has one name in upper-case letters. The letters of a column read back as its
number, as long as the number is not too large to be read.

## Key results

- `number_letters`: the letters of a column read as the column
- `number_pos`: letters never name column zero
- `number_eq_ok_iff`: what is read from letters is their value
- `letters_value`: the column that letters name is written with these letters
- `column_letters_bijective`: reading and writing columns are inverse to each other
-/

namespace SheetTemplate.Column

open Text (max32)

/-- The letters from `A` on have the values from one on. -/
private theorem letterValue_ofNat {d : Nat} (h : d < 26) :
    letterValue (Char.ofNat (65 + d)) = d + 1 := by
  have hall : ∀ k : Fin 26, letterValue (Char.ofNat (65 + k.val)) = k.val + 1 := by decide
  exact hall ⟨d, h⟩

/-- The 26 characters from 65 on are letters. -/
private theorem isAlpha_ofNat {d : Nat} (h : d < 26) : (Char.ofNat (65 + d)).isAlpha = true := by
  have hall : ∀ k : Fin 26, (Char.ofNat (65 + k.val)).isAlpha = true := by decide
  exact hall ⟨d, h⟩

/-- Column letters are ASCII letters. -/
theorem isAlpha_of_mem_letters {n : Nat} {c : Char} (h : c ∈ letters n) : c.isAlpha = true := by
  induction n using Nat.strongRecOn with
  | ind n ih =>
    cases n with
    | zero => simp at h
    | succ n =>
      rw [letters_of_pos (by omega)] at h
      rcases List.mem_append.1 h with h | h
      · exact ih ((n + 1 - 1) / 26) (by omega) h
      · rw [List.mem_singleton.1 h]
        exact isAlpha_ofNat (Nat.mod_lt _ (by omega))

/-- A column that is not zero has letters. -/
theorem letters_ne_nil {n : Nat} (h : 0 < n) : letters n ≠ [] := by
  rw [letters_of_pos h]
  simp

/-- Letters have codes up to 122. -/
theorem toNat_le_of_isAlpha {c : Char} (h : c.isAlpha = true) : c.toNat ≤ 122 := by
  have hcase : c.isUpper = true ∨ c.isLower = true := Bool.or_eq_true_iff.1 h
  rcases hcase with hupper | hlower
  · have hrange : 'A'.val ≤ c.val ∧ c.val ≤ 'Z'.val := of_decide_eq_true hupper
    have : c.toNat ≤ 90 := hrange.2
    omega
  · have hle : decide (c.val ≤ 'z'.val) = true := (Bool.and_eq_true_iff.1 hlower).2
    exact of_decide_eq_true hle

/-- What holds of every character with a small code holds of a character whose code is small. -/
theorem of_forall_ofNat {P : Char → Prop} {bound : Nat}
    (h : ∀ k : Fin bound, P (Char.ofNat k.val)) {c : Char} (hc : c.toNat < bound) : P c := by
  have hcode : P (Char.ofNat c.toNat) := h ⟨c.toNat, hc⟩
  rwa [Char.ofNat_toNat] at hcode

/-- A letter counts for at least one. -/
private theorem letterValue_pos {c : Char} (h : c.isAlpha = true) : 0 < letterValue c := by
  have hall : ∀ k : Fin 123, (Char.ofNat k.val).isAlpha = true →
      0 < letterValue (Char.ofNat k.val) := by decide
  have hc := toNat_le_of_isAlpha h
  exact of_forall_ofNat (P := fun c => c.isAlpha = true → 0 < letterValue c) hall (by omega) h

/-- Reading goes up. -/
theorem le_of_numberFrom {text cs : List Char} {n m : Nat} (h : numberFrom text n cs = .ok m) :
    n ≤ m := by
  -- Reading a letter never makes the number smaller.
  induction cs generalizing n with
  | nil =>
    simp only [numberFrom, Except.ok.injEq] at h
    omega
  | cons c r ih =>
    simp only [numberFrom] at h
    split at h
    · exact nomatch h
    · split at h
      · have := ih h
        omega
      · exact nomatch h

/-- Letters never name column zero. -/
theorem number_pos {cs : List Char} {n : Nat} (h : number cs = .ok n) : 0 < n := by
  -- The first letter makes it at least one.
  cases cs with
  | nil => simp [number] at h
  | cons c r =>
    simp only [number, List.isEmpty_cons, Bool.false_eq_true, ↓reduceIte, numberFrom] at h
    split at h
    · exact nomatch h
    · rename_i halpha
      have hc := letterValue_pos (by simpa using halpha)
      split at h
      · have := le_of_numberFrom h
        omega
      · exact nomatch h

/-- The letters of a column bring the number read so far from zero to the column. -/
theorem numberFrom_letters {n : Nat} (text rest : List Char) (h : n ≤ max32) :
    numberFrom text 0 (letters n ++ rest) = numberFrom text n rest := by
  -- The letters before the last one are those of a smaller column.
  induction n using Nat.strongRecOn generalizing rest with
  | ind n ih =>
    cases n with
    | zero => simp
    | succ n =>
      have hlast : n % 26 < 26 := Nat.mod_lt _ (by omega)
      rw [letters_of_pos (by omega), Nat.add_sub_cancel, List.append_assoc,
        ih (n / 26) (by omega) _ (by omega)]
      have hvalue : n / 26 * 26 + (n % 26 + 1) = n + 1 := by omega
      simp [numberFrom, letterValue_ofNat hlast, isAlpha_ofNat hlast, hvalue, h]

/-- The letters of a column read as the column. -/
theorem number_letters {n : Nat} (hpos : 0 < n) (h : n ≤ max32) : number (letters n) = .ok n := by
  have hne : (letters n).isEmpty = false := by simp [letters_ne_nil hpos]
  have := numberFrom_letters (letters n) [] h
  rw [List.append_nil] at this
  simp [number, hne, this, numberFrom]

/-- What is read after the letters of a column is read after its number. -/
private theorem numberFrom_of_letters {n m : Nat} {text : List Char} (rest : List Char)
    (h : numberFrom text 0 (letters n ++ rest) = .ok m) : numberFrom text n rest = .ok m := by
  -- The letters of a number are those of its quotient by 26 and one more.
  induction n using Nat.strongRecOn generalizing rest with
  | ind n ih =>
    cases n with
    | zero => simpa using h
    | succ n =>
      have hlast : n % 26 < 26 := Nat.mod_lt _ (by omega)
      have hvalue : n / 26 * 26 + (n % 26 + 1) = n + 1 := by omega
      rw [letters_of_pos (by omega), Nat.add_sub_cancel, List.append_assoc] at h
      have hlater := ih (n / 26) (by omega) _ h
      simp only [List.cons_append, List.nil_append, numberFrom, letterValue_ofNat hlast,
        isAlpha_ofNat hlast, hvalue, Bool.not_true, Bool.false_eq_true, ↓reduceIte] at hlater
      split at hlater
      · exact hlater
      · exact nomatch hlater

/-- Letters of a column that can be read name no other column. -/
theorem eq_of_number_letters {n m : Nat} (h : number (letters n) = .ok m) : m = n := by
  unfold number at h
  split at h
  · exact nomatch h
  · rw [← List.append_nil (letters n)] at h
    have hread := numberFrom_of_letters [] h
    simp only [numberFrom, Except.ok.injEq] at hread
    exact hread.symm

/-! ### Words of letters -/

/-- The value of a word in bijective base 26, where `A` to `Z` are the digits one to 26. -/
def value (cs : List Char) : Nat := Nat.ofDigits 26 (cs.reverse.map letterValue)

/-- No letters have the value zero. -/
@[simp]
theorem value_nil : value [] = 0 := rfl

/-- A further letter counts for itself, and those before it 26 times. -/
theorem value_concat (cs : List Char) (c : Char) :
    value (cs ++ [c]) = letterValue c + 26 * value cs := by
  simp [value, Nat.ofDigits_cons]

/-- Further letters only make a word larger. -/
theorem value_le_append (cs r : List Char) : value cs ≤ value (cs ++ r) := by
  induction r using List.reverseRecOn with
  | nil => rw [List.append_nil]
  | append_singleton r c ih =>
    rw [← List.append_assoc, value_concat]
    omega

/-- The letters after a word are read after its value. -/
private theorem numberFrom_value_iff (text r : List Char) {cs : List Char} {m : Nat}
    (h : value cs ≤ max32) :
    numberFrom text (value cs) r = .ok m ↔
      (∀ c ∈ r, c.isAlpha = true) ∧ value (cs ++ r) = m ∧ m ≤ max32 := by
  -- The word read so far takes the letters over one by one.
  induction r generalizing cs with
  | nil =>
    simp only [numberFrom, Except.ok.injEq, List.append_nil, List.not_mem_nil, false_implies,
      implies_true, true_and]
    exact ⟨fun heq => ⟨heq, heq ▸ h⟩, And.left⟩
  | cons c r ih =>
    have hnext : value cs * 26 + letterValue c = value (cs ++ [c]) := by
      rw [value_concat]
      omega
    have hword : cs ++ c :: r = (cs ++ [c]) ++ r := by
      rw [List.append_assoc, List.singleton_append]
    unfold numberFrom
    rw [hnext, hword]
    by_cases hc : c.isAlpha = true
    · by_cases hfits : value (cs ++ [c]) ≤ max32
      · simp [hc, hfits, ih hfits]
      · -- What is too large already stays so.
        have hgrows := value_le_append (cs ++ [c]) r
        simp only [hc, Bool.not_true, Bool.false_eq_true, ↓reduceIte, hfits, reduceCtorEq,
          false_iff, not_and]
        omega
    · simp [hc]

/-- What is read from letters is their value, if it fits 32 bits. -/
theorem number_eq_ok_iff {cs : List Char} {n : Nat} :
    number cs = .ok n ↔
      cs ≠ [] ∧ (∀ c ∈ cs, c.isAlpha = true) ∧ value cs = n ∧ n ≤ max32 := by
  unfold number
  cases cs with
  | nil => simp
  | cons c r =>
    have hread : numberFrom (c :: r) (value []) (c :: r) = .ok n ↔
        (∀ x ∈ c :: r, x.isAlpha = true) ∧ value ([] ++ c :: r) = n ∧ n ≤ max32 :=
      numberFrom_value_iff (c :: r) (c :: r) (Nat.zero_le _)
    rw [value_nil, List.nil_append] at hread
    rw [List.isEmpty_cons, if_neg Bool.false_ne_true, hread]
    simp

/-- Words that are no columns are not read. -/
theorem exists_number_eq_error_iff {cs : List Char} :
    (∃ fault, number cs = .error fault) ↔
      cs = [] ∨ (∃ c ∈ cs, c.isAlpha = false) ∨ max32 < value cs := by
  have hok : (∃ n, number cs = .ok n) ↔
      cs ≠ [] ∧ (∀ c ∈ cs, c.isAlpha = true) ∧ value cs ≤ max32 := by
    simp only [number_eq_ok_iff]
    exact ⟨fun ⟨n, hne, hall, hn, hfits⟩ => ⟨hne, hall, hn ▸ hfits⟩,
      fun ⟨hne, hall, hfits⟩ => ⟨_, hne, hall, rfl, hfits⟩⟩
  have hsplit : (∃ fault, number cs = .error fault) ↔ ¬∃ n, number cs = .ok n := by
    cases number cs <;> simp
  rw [hsplit, hok, not_and_or, not_and_or, not_not, Nat.not_le]
  simp only [not_forall, exists_prop, Bool.not_eq_true]

/-- A letter is the upper-case letter of its value. -/
private theorem ofNat_letterValue {c : Char} (h : c.isAlpha = true) :
    letterValue c ≤ 26 ∧ Char.ofNat (65 + (letterValue c - 1)) = c.toUpper := by
  have hall : ∀ k : Fin 123, (Char.ofNat k.val).isAlpha = true →
      letterValue (Char.ofNat k.val) ≤ 26 ∧
        Char.ofNat (65 + (letterValue (Char.ofNat k.val) - 1)) = (Char.ofNat k.val).toUpper := by
    decide
  have hc := toNat_le_of_isAlpha h
  exact of_forall_ofNat (P := fun c => c.isAlpha = true → letterValue c ≤ 26 ∧
    Char.ofNat (65 + (letterValue c - 1)) = c.toUpper) hall (by omega) h

/-- The column that letters name is written with these letters, in upper case. -/
theorem letters_value {cs : List Char} (h : ∀ c ∈ cs, c.isAlpha = true) :
    letters (value cs) = cs.map Char.toUpper := by
  induction cs using List.reverseRecOn with
  | nil => exact letters_zero
  | append_singleton cs c ih =>
    have hletter : c.isAlpha = true := h c (by simp)
    have hpos := letterValue_pos hletter
    obtain ⟨hmax, hupper⟩ := ofNat_letterValue hletter
    -- The last digit is at least one, so what is left of the number is the rest of the word.
    have hrest : (letterValue c + 26 * value cs - 1) / 26 = value cs := by omega
    have hlast : (letterValue c + 26 * value cs - 1) % 26 = letterValue c - 1 := by omega
    rw [value_concat, letters_of_pos (by omega), hrest, hlast, hupper,
      ih fun d hd => h d (List.mem_append_left _ hd), List.map_append, List.map_singleton]

/-! ### The law -/

/-- Columns and words: a column number of 32 bits reads back from its letters, letters whose value
fits are those of the column that they name, and all else is refused. -/
theorem column_letters_bijective :
    (∀ n, 0 < n → n ≤ max32 → number (letters n) = .ok n) ∧
      (∀ cs, cs ≠ [] → (∀ c ∈ cs, c.isAlpha = true) → value cs ≤ max32 →
        number cs = .ok (value cs) ∧ letters (value cs) = cs.map Char.toUpper) ∧
      ∀ cs, (∃ fault, number cs = .error fault) ↔
        cs = [] ∨ (∃ c ∈ cs, c.isAlpha = false) ∨ max32 < value cs :=
  ⟨fun _ hpos hfits => number_letters hpos hfits,
    fun _ hne hall hfits => ⟨number_eq_ok_iff.2 ⟨hne, hall, rfl, hfits⟩, letters_value hall⟩,
    fun _ => exists_number_eq_error_iff⟩

/-- The largest column of 32 bits, the last one of a sheet in lower case, and the word after the
largest column. -/
theorem column_letters_bijective_sample :
    number (letters max32) = .ok max32 ∧
      (number ['x', 'f', 'd'] = .ok 16384 ∧ letters 16384 = ['X', 'F', 'D']) ∧
      ∃ fault, number ['M', 'W', 'L', 'Q', 'K', 'W', 'V'] = .error fault := by
  obtain ⟨hread, hwritten, hrefused⟩ := column_letters_bijective
  have hvalue : value ['x', 'f', 'd'] = 16384 := by decide
  have halpha : ∀ c ∈ ['x', 'f', 'd'], c.isAlpha = true := List.all_eq_true.1 rfl
  have hlast := hwritten ['x', 'f', 'd'] (by decide) halpha (by decide)
  rw [hvalue] at hlast
  exact ⟨hread max32 (by decide) (Nat.le_refl _), hlast,
    (hrefused _).2 (.inr (.inr (by decide)))⟩

end SheetTemplate.Column
