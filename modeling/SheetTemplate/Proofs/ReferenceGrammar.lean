import SheetTemplate.Proofs.ReferenceRoundTrip

/-!
# The texts that are read as references

A reference is a qualifier with its exclamation mark, letters and decimal digits, each of the last
two after its marker. Numbers are read with an optional plus sign, as everywhere, so that a sign
may also stand before the digits of a row: the sum `A+1` is taken for the cell `A1`.

## Key results

- `Text.natural?_eq_some_iff`: the texts that are read as numbers
- `parse_eq_ok_iff`: the texts that are read as references, and what is read from them
-/

namespace SheetTemplate.Text

/-- The value of a word of decimal digits. -/
def decimalValue (ds : List Char) : Nat :=
  Nat.ofDigits 10 (ds.reverse.map fun x => x.toNat - '0'.toNat)

/-- A further digit counts for itself, and those before it ten times. -/
theorem decimalValue_concat (ds : List Char) (x : Char) :
    decimalValue (ds ++ [x]) = x.toNat - '0'.toNat + 10 * decimalValue ds := by
  simp [decimalValue, Nat.ofDigits_cons]

/-- The value of digits is the one that the library gives them. -/
theorem ofDigitChars_eq_decimalValue (ds : List Char) :
    Nat.ofDigitChars 10 ds 0 = decimalValue ds := by
  induction ds using List.reverseRecOn with
  | nil => rfl
  | append_singleton ds x ih =>
    rw [decimalValue_concat, ← ih, Nat.ofDigitChars, List.foldl_append]
    exact Nat.add_comm _ _

/-- Digits are read if there are any and nothing else. -/
theorem digits?_eq_some_iff {ds : List Char} {n : Nat} :
    digits? ds = some n ↔ ds ≠ [] ∧ (∀ x ∈ ds, x.isDigit = true) ∧ decimalValue ds = n := by
  unfold digits?
  rw [ofDigitChars_eq_decimalValue]
  by_cases hne : ds = []
  · simp [hne]
  · simp [hne, ← and_assoc]

/-- Digits are no signs. -/
private theorem ne_plus_cons {ds : List Char} (h : ∀ x ∈ ds, x.isDigit = true) (r : List Char) :
    ds ≠ '+' :: r := by
  rintro rfl
  exact absurd (h '+' List.mem_cons_self) (by decide)

/-- A number is read from decimal digits with or without a plus sign before them. -/
theorem natural?_eq_some_iff {bound n : Nat} {cs : List Char} :
    natural? bound cs = some n ↔
      ∃ ds, (cs = ds ∨ cs = '+' :: ds) ∧ digits? ds = some n ∧ n ≤ bound := by
  -- The sign is taken away if there is one, and digits do not begin with it.
  constructor
  · intro h
    unfold natural? at h
    obtain ⟨hread, hfits⟩ := Option.filter_eq_some_iff.1 h
    have hfits : n ≤ bound := of_decide_eq_true hfits
    split at hread
    · exact ⟨_, .inr rfl, hread, hfits⟩
    · exact ⟨_, .inl rfl, hread, hfits⟩
  · rintro ⟨ds, hcs, hread, hfits⟩
    have hdigits := (digits?_eq_some_iff.1 hread).2.1
    have hstrip : natural? bound cs = (digits? ds).filter (· ≤ bound) := by
      rcases hcs with rfl | rfl
      · unfold natural?
        split
        · exact absurd rfl (ne_plus_cons hdigits _)
        · rfl
      · rfl
    rw [hstrip, hread]
    simpa using hfits

end SheetTemplate.Text

namespace SheetTemplate.CellRef

open Text

/-- Letters that name a column of a sheet, in either case. -/
structure NamesColumn (letters : List Char) (col : Nat) : Prop where
  ne_nil : letters ≠ []
  isAlpha : ∀ x ∈ letters, x.isAlpha = true
  value : Column.value letters = col
  pos : 0 < col
  le : col ≤ maxCols

/-- Decimal digits that name a row of a sheet. -/
structure NamesRow (digits : List Char) (row : Nat) : Prop where
  ne_nil : digits ≠ []
  isDigit : ∀ x ∈ digits, x.isDigit = true
  value : decimalValue digits = row
  pos : 0 < row
  le : row ≤ maxRows

/-- The text of a reference, with a sign before the digits of its row. -/
def SpelledWith (sign cs : List Char) (c : CellRef) : Prop :=
  ∃ letters digits,
    cs = qualifierChars c.sheet ++ (markerChars c.colFixed ++ (letters ++
        (markerChars c.rowFixed ++ (sign ++ digits)))) ∧
      NamesColumn letters c.col ∧ NamesRow digits c.row

/-- Neither markers nor letters nor digits are exclamation marks. -/
private theorem mark_not_mem_spelling {fixed fixed' : Bool} {letters digits sign : List Char}
    (hletters : ∀ x ∈ letters, x.isAlpha = true) (hdigits : ∀ x ∈ digits, x.isDigit = true)
    (hsign : '!' ∉ sign) :
    '!' ∉ markerChars fixed ++ (letters ++ (markerChars fixed' ++ (sign ++ digits))) := by
  have hmarker : ∀ fixed, '!' ∉ markerChars fixed := by decide
  have hletter : '!' ∉ letters := fun h => absurd (hletters _ h) (by decide)
  have hdigit : '!' ∉ digits := fun h => absurd (hdigits _ h) (by decide)
  simp [hmarker, hletter, hdigit, hsign]

/-- Spellings without a sign, and with a plus sign, are read. -/
theorem ofChars_of_spelledWith {sign cs : List Char} {c : CellRef}
    (hsign : sign = [] ∨ sign = ['+']) (h : SpelledWith sign (trim cs) c) :
    ofChars cs = .ok c := by
  obtain ⟨letters, digits, htext, hcol, hrow⟩ := h
  -- Neither the sign nor what follows has an exclamation mark, so the qualifier is found.
  have hmark : '!' ∉ sign := by rcases hsign with rfl | rfl <;> decide
  have hqualifier := qualifier_eq_iff.2
    ⟨htext, mark_not_mem_spelling hcol.isAlpha hrow.isDigit hmark⟩
  have hletters : Column.number letters = .ok c.col :=
    Column.number_eq_ok_iff.2
      ⟨hcol.ne_nil, hcol.isAlpha, hcol.value, Nat.le_trans hcol.le limits_le_max32.1⟩
  have hdigits : natural? max32 (sign ++ digits) = some c.row := by
    refine natural?_eq_some_iff.2 ⟨digits, ?_, ?_, Nat.le_trans hrow.le limits_le_max32.2⟩
    · rcases hsign with rfl | rfl
      · exact .inl rfl
      · exact .inr rfl
    · exact digits?_eq_some_iff.2 ⟨hrow.ne_nil, hrow.isDigit, hrow.value⟩
  -- The number begins with its sign or with a digit.
  have hhead : ∀ x ∈ (sign ++ digits).head?, x.isAlpha = false ∧ x ≠ '$' := by
    intro x hx
    have hx : x ∈ sign ∨ x.isDigit = true :=
      (List.mem_append.1 (List.mem_of_head? hx)).imp_right (hrow.isDigit x)
    rcases hx with hx | hx
    · rcases hsign with rfl | rfl
      · cases hx
      · rw [List.mem_singleton.1 hx]
        decide
    · refine ⟨isAlpha_of_isDigit hx, ?_⟩
      rintro rfl
      exact absurd hx (by decide)
  have hempty : (trim cs).isEmpty = false := by
    simp [htext, hcol.ne_nil]
  have hrow_le := hrow.le
  have hcol_le := hcol.le
  have hlimits : ¬(c.row = 0 ∨ maxRows < c.row) ∧ ¬maxCols < c.col := by
    have := hrow.pos
    omega
  -- Both numbers are read, and they are within the sheet.
  unfold ofChars
  simp only [hempty, Bool.false_eq_true, ↓reduceIte, hqualifier]
  rw [parseLocal_append _ _ _ _ hcol.ne_nil hcol.isAlpha (by simp [hrow.ne_nil]) hhead, hletters]
  simp only [Except.bind, hdigits, hlimits.1, hlimits.2, ↓reduceIte]

/-- What was read was spelled so. -/
private theorem spelledWith_of_ofChars {cs : List Char} {c : CellRef} (h : ofChars cs = .ok c) :
    SpelledWith [] (trim cs) c ∨ SpelledWith ['+'] (trim cs) c := by
  unfold ofChars at h
  dsimp only at h
  split at h
  · exact nomatch h
  · obtain ⟨hsheet, letters, number, hcell, hletters, hcol_le, hnumber, hrow_pos, hrow_le⟩ :=
      parseLocal_eq_ok h
    -- What is read as a number are digits, with a sign or without.
    obtain ⟨digits, hsign, hdigits, -⟩ := natural?_eq_some_iff.1 hnumber
    obtain ⟨hdigits_ne, hdigits_all, hrow⟩ := digits?_eq_some_iff.1 hdigits
    obtain ⟨hletters_ne, hletters_all, hcol, -⟩ := Column.number_eq_ok_iff.1 hletters
    have hnames : NamesColumn letters c.col ∧ NamesRow digits c.row :=
      ⟨⟨hletters_ne, hletters_all, hcol, Column.number_pos hletters, hcol_le⟩,
        hdigits_ne, hdigits_all, hrow, hrow_pos, hrow_le⟩
    have htext := qualifierChars_qualifier (trim cs)
    rw [← hsheet, hcell] at htext
    rcases hsign with rfl | rfl
    · exact .inl ⟨letters, _, htext.symm, hnames⟩
    · exact .inr ⟨letters, digits, htext.symm, hnames⟩

/-! ### The law -/

/-- A text is read as a reference exactly if it is spelled as one, up to blanks around it: with the
qualifier up to its last exclamation mark, both markers, letters that name the column and decimal
digits that name the row. The digits may have a plus sign before them. -/
theorem parse_eq_ok_iff (s : String) (c : CellRef) :
    parse s = .ok c ↔
      SpelledWith [] (trim s.toList) c ∨ SpelledWith ['+'] (trim s.toList) c :=
  ⟨spelledWith_of_ofChars,
    fun h => h.elim (ofChars_of_spelledWith (.inl rfl)) (ofChars_of_spelledWith (.inr rfl))⟩

/-- A sum is taken for a reference, although its row has a sign before the digits. -/
theorem sum_read_as_reference :
    ¬∀ (s : String) (c : CellRef), parse s = .ok c ↔ SpelledWith [] (trim s.toList) c := by
  intro h
  have hread : parse "A+1" = .ok { col := 1, row := 1 } := rfl
  obtain ⟨letters, digits, htext, hcol, hrow⟩ := (h _ _).1 hread
  -- The plus sign would have to be a letter or a digit.
  have hplus : '+' ∈ trim "A+1".toList := by decide +kernel
  rw [htext] at hplus
  have hmem : '+' ∈ letters ∨ '+' ∈ digits := by
    simpa [qualifierChars, markerChars] using hplus
  rcases hmem with hmem | hmem
  · exact absurd (hcol.isAlpha _ hmem) (by decide)
  · exact absurd (hrow.isDigit _ hmem) (by decide)

end SheetTemplate.CellRef
