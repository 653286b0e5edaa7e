import SheetTemplate.Proofs.ReferenceGrammar

/-!
# Sheet names in quotation marks

A sheet name with blanks or signs in it stands between apostrophes, where each apostrophe of its own
is written twice. The qualifier of a reference is kept so; its name is found by dropping all
apostrophes at both ends, not just the two around it, and by replacing pairs of them from the left.
The pairs come out right in a run of any length, because a run has an even number and is entered at
its beginning. What stood at the ends of the name is lost.

## Key results

- `Text.replaceAll_doubled`, `Text.bare_quoted`: the two steps of finding a name
- `CellRef.sheetName?_onSheet`: the name found is the one written, without apostrophes at its ends
- `quoted_names_read_back`: references and ranges with such a qualifier
-/

namespace SheetTemplate

/-! ### Doubled apostrophes -/

namespace Text

/-- A text with every apostrophe written twice. -/
def doubled (cs : List Char) : List Char :=
  cs.flatMap fun x => if x = '\x27' then ['\x27', '\x27'] else [x]

/-- A text without the apostrophes at its ends. -/
def bare (cs : List Char) : List Char := (cs.dropWhile (· == '\x27')).rdropWhile (· == '\x27')

/-- Nothing is doubled to nothing. -/
@[simp]
theorem doubled_nil : doubled [] = [] := rfl

/-- An apostrophe is doubled. -/
@[simp]
theorem doubled_apostrophe (r : List Char) :
    doubled ('\x27' :: r) = ['\x27', '\x27'] ++ doubled r := rfl

/-- Any other character is not. -/
theorem doubled_cons_of_ne {x : Char} (h : x ≠ '\x27') (r : List Char) :
    doubled (x :: r) = x :: doubled r := by
  simp [doubled, h]

/-- Only nothing is doubled to nothing. -/
theorem doubled_eq_nil {cs : List Char} : doubled cs = [] ↔ cs = [] := by
  cases cs with
  | nil => simp
  | cons x r =>
    by_cases hx : x = '\x27'
    · simp [hx]
    · simp [doubled_cons_of_ne hx]

/-- Doubling adds no other character. -/
theorem mem_doubled {x : Char} {cs : List Char} : x ∈ doubled cs ↔ x ∈ cs := by
  simp only [doubled, List.mem_flatMap]
  constructor
  · rintro ⟨y, hy, hx⟩
    split at hx <;> simp_all
  · intro hx
    refine ⟨x, hx, ?_⟩
    split <;> simp_all

/-- Doubling goes by single characters, so it is the same from either end. -/
theorem doubled_reverse (cs : List Char) : doubled cs.reverse = (doubled cs).reverse := by
  rw [doubled, doubled, List.reverse_flatMap]
  congr 1
  funext x
  by_cases hx : x = '\x27' <;> simp [hx]

/-- Replacing the pairs gives the text again, however many apostrophes stand side by side. -/
theorem replaceAll_doubled (cs : List Char) :
    replaceAll ['\x27', '\x27'] ['\x27'] (doubled cs) = cs := by
  induction cs with
  | nil => rfl
  | cons x r ih =>
    by_cases hx : x = '\x27'
    · -- The pair goes first, even where an apostrophe follows it and would make another pair.
      rw [hx, doubled_apostrophe, replaceAll_append_word (by simp), ih, List.singleton_append]
    · have hprefix : ¬['\x27', '\x27'].isPrefixOf (x :: doubled r) = true := by
        simp [Ne.symm hx]
      rw [doubled_cons_of_ne hx, replaceAll_cons_of_not_prefix hprefix, ih]

/-! ### Apostrophes at the ends -/

/-- Dropping apostrophes in front comes to the same before and after doubling. -/
theorem dropWhile_doubled (cs : List Char) :
    (doubled cs).dropWhile (· == '\x27') = doubled (cs.dropWhile (· == '\x27')) := by
  induction cs with
  | nil => rfl
  | cons x r ih =>
    by_cases hx : x = '\x27'
    · simpa [hx] using ih
    · simp [doubled_cons_of_ne hx, hx]

/-- So does dropping them at the end. -/
theorem rdropWhile_doubled (cs : List Char) :
    (doubled cs).rdropWhile (· == '\x27') = doubled (cs.rdropWhile (· == '\x27')) := by
  rw [List.rdropWhile, ← doubled_reverse, dropWhile_doubled, ← doubled_reverse, List.rdropWhile]

/-- Between the apostrophes around a name, those at its own ends are dropped in pairs. -/
theorem bare_quoted (cs : List Char) :
    bare ('\x27' :: (doubled cs ++ ['\x27'])) = doubled (bare cs) := by
  unfold bare
  rw [List.dropWhile_cons_of_pos (by rfl), List.dropWhile_append, dropWhile_doubled]
  by_cases hrest : cs.dropWhile (· == '\x27') = []
  · -- A name of nothing but apostrophes takes the last one with it.
    simp [hrest]
  · -- Otherwise the one behind the name is the first to go from the right.
    rw [if_neg (by simpa [doubled_eq_nil] using hrest), List.rdropWhile_concat_pos _ _ _ (by rfl),
      rdropWhile_doubled]

/-- Nothing is dropped from a name without apostrophes at its ends. -/
theorem bare_eq_self_iff {cs : List Char} :
    bare cs = cs ↔ '\x27' ∉ cs.head? ∧ '\x27' ∉ cs.getLast? := by
  -- What is left after dropping begins and ends with no apostrophe.
  constructor
  · intro h
    constructor
    · intro hhead
      rw [← h] at hhead
      exact absurd (head_dropEnds hhead) (by decide)
    · intro hlast
      rw [← h, bare] at hlast
      obtain ⟨hne, hlast⟩ := List.mem_getLast?_eq_getLast hlast
      exact List.rdropWhile_last_not _ _ hne (by simpa using hlast.symm)
  · rintro ⟨hhead, hlast⟩
    refine dropEnds_eq_self (fun c hc => ?_) fun c hc => ?_
    · exact beq_eq_false_iff_ne.2 fun heq => hhead (heq ▸ hc)
    · exact beq_eq_false_iff_ne.2 fun heq => hlast (heq ▸ hc)

end Text

namespace CellRef

open Text

/-! ### The name of a sheet -/

/-- A sheet name between apostrophes. -/
def quoted (name : String) : String := String.ofList ('\x27' :: (doubled name.toList ++ ['\x27']))

/-- A cell of a sheet, with the name in quotation marks. -/
def onSheet (name : String) (c : CellRef) : CellRef := { c with sheet := some (quoted name) }

/-- The name that is found is the one that was written, but for apostrophes at its ends. -/
theorem sheetName?_onSheet (name : String) (c : CellRef) :
    (c.onSheet name).sheetName? = some (String.ofList (bare name.toList)) := by
  have hname : (c.onSheet name).sheetName? = some (String.ofList
      (replaceAll ['\x27', '\x27'] ['\x27'] (bare (quoted name).toList))) := rfl
  rw [hname, quoted, String.toList_ofList, bare_quoted, replaceAll_doubled]

/-- A name is found again exactly if it neither begins nor ends with an apostrophe. -/
theorem sheetName?_onSheet_eq_iff {name : String} {c : CellRef} :
    (c.onSheet name).sheetName? = some name ↔
      '\x27' ∉ name.toList.head? ∧ '\x27' ∉ name.toList.getLast? := by
  rw [sheetName?_onSheet, ← bare_eq_self_iff, Option.some.injEq, ← String.toList_inj,
    String.toList_ofList]

/-! ### The text of a cell -/

/-- A text that names a cell, in letters of either case and decimal digits, and no sheet. -/
structure Spells (text : String) (c : CellRef) : Prop where
  unqualified : c.sheet = none
  spelling : SpelledWith [] text.toList c

/-- The text that is written for a cell is one that names it. -/
theorem spells_a1 {c : CellRef} (h : c.Readable) (hsheet : c.sheet = none) : Spells c.a1 c := by
  have hletters := Column.number_letters h.col_pos (Nat.le_trans h.col_le limits_le_max32.1)
  obtain ⟨hcol_ne, hcol_alpha, hcol, -⟩ := Column.number_eq_ok_iff.1 hletters
  obtain ⟨hrow_ne, hrow_digit, hrow⟩ := digits?_eq_some_iff.1 (digits?_numeral c.row)
  refine ⟨hsheet, Column.letters c.col, numeral c.row, ?_, ?_, ?_⟩
  · rw [a1, String.toList_ofList, chars_eq, localChars, List.nil_append]
  · exact ⟨hcol_ne, hcol_alpha, hcol, h.col_pos, h.col_le⟩
  · exact ⟨hrow_ne, hrow_digit, hrow, h.row_pos, h.row_le⟩

namespace Spells

variable {text : String} {c : CellRef}

/-- Dollar signs, letters and digits are all there is in the text of a cell. -/
theorem of_mem (h : Spells text c) {x : Char} (hx : x ∈ text.toList) :
    x = '$' ∨ x.isAlpha = true ∨ x.isDigit = true := by
  obtain ⟨letters, digits, htext, hcol, hrow⟩ := h.spelling
  have hmarker : ∀ fixed, x ∈ markerChars fixed → x = '$' := by
    intro fixed
    cases fixed <;> simp [markerChars]
  simp only [htext, h.unqualified, qualifierChars, List.nil_append, List.mem_append] at hx
  rcases hx with hx | hx | hx | hx
  · exact .inl (hmarker _ hx)
  · exact .inr (.inl (hcol.isAlpha x hx))
  · exact .inl (hmarker _ hx)
  · exact .inr (.inr (hrow.isDigit x hx))

/-- The text of a cell has no blanks. -/
theorem isBlank_of_mem (h : Spells text c) {x : Char} (hx : x ∈ text.toList) :
    isBlank x = false := by
  rcases h.of_mem hx with rfl | hx | hx
  · decide
  · exact isBlank_of_isAlpha hx
  · exact isBlank_of_isDigit hx

/-- It has no colon. -/
theorem colon_not_mem (h : Spells text c) : ':' ∉ text.toList := by
  intro hx
  rcases h.of_mem hx with hx | hx | hx <;> exact absurd hx (by decide)

/-- It is read as the cell. -/
theorem ofChars (h : Spells text c) : CellRef.ofChars text.toList = .ok c := by
  refine ofChars_of_spelledWith (.inl rfl) ?_
  rw [trim_eq_self (fun x hx => h.isBlank_of_mem (List.mem_of_head? hx))
    fun x hx => h.isBlank_of_mem (List.mem_of_getLast? hx)]
  exact h.spelling

end Spells

/-! ### Behind a qualifier -/

/-- The characters of a name in quotation marks. -/
theorem toList_quoted (name : String) :
    (quoted name).toList = '\x27' :: (doubled name.toList ++ ['\x27']) := String.toList_ofList

/-- Nothing is trimmed from a text between the apostrophe of a name and a cell. -/
private theorem trim_quoted {text : String} {c : CellRef} (h : Spells text c) (name : String)
    (front : List Char) (mark : Char) (hmark : isBlank mark = false) :
    trim ((quoted name).toList ++ (front ++ mark :: text.toList)) =
      (quoted name).toList ++ (front ++ mark :: text.toList) := by
  refine trim_eq_self (fun x hx => ?_) fun x hx => ?_
  · rw [toList_quoted, List.cons_append, List.head?_cons, Option.mem_some] at hx
    rw [← hx]
    decide
  · rw [← List.append_assoc, List.getLast?_append_of_ne_nil _ (List.cons_ne_nil _ _)] at hx
    rcases List.mem_cons.1 (List.mem_of_getLast? hx) with rfl | hx
    · exact hmark
    · exact h.isBlank_of_mem hx

/-- A cell is read behind the name of its sheet as it is read alone. -/
theorem ofChars_onSheet {text : String} {c : CellRef} (h : Spells text c) (name : String) :
    ofChars ((quoted name).toList ++ '!' :: text.toList) = .ok (c.onSheet name) := by
  refine ofChars_of_spelledWith (.inl rfl) ?_
  obtain ⟨letters, digits, htext, hcol, hrow⟩ := h.spelling
  -- The cell has no exclamation mark, so one that the name may have is not the last.
  rw [← List.nil_append ('!' :: _), trim_quoted h name [] '!' (by decide)]
  refine ⟨letters, digits, ?_, hcol, hrow⟩
  simp [htext, h.unqualified, onSheet, qualifierChars]

/-- Two cells behind the name of a sheet are read as a range, if the name has no colon that would
divide it. -/
theorem parse_range_onSheet {text text' : String} {c c' : CellRef} (h : Spells text c)
    (h' : Spells text' c') {name : String} (hname : ':' ∉ name.toList) :
    RangeRef.parse (quoted name ++ "!" ++ text ++ ":" ++ text') = .ok ⟨c.onSheet name, c'⟩ := by
  have hchars : (quoted name ++ "!" ++ text ++ ":" ++ text').toList =
      (quoted name).toList ++ ('!' :: text.toList ++ ':' :: text'.toList) := by
    simp
  -- The first colon is the one between the corners.
  have hfront : ':' ∉ (quoted name).toList ++ '!' :: text.toList := by
    simp [toList_quoted, mem_doubled, hname, h.colon_not_mem]
  have hcut := cutFirst?_append text'.toList hfront
  rw [List.append_assoc] at hcut
  unfold RangeRef.parse
  rw [hchars, trim_quoted h' name _ ':' (by decide)]
  simp only [hcut, RangeRef.corner, ofChars_onSheet h name, h'.ofChars, bind, Except.bind, pure,
    Except.pure]

/-! ### The law -/

/-- A sheet name in quotation marks is found again, if it neither begins nor ends with an
apostrophe: in front of a cell in any spelling and, unless it has a colon, in front of the first
corner of a range. The cell with its markers and the other corner are read as they are. -/
theorem quoted_names_read_back {name : String} (hfirst : '\x27' ∉ name.toList.head?)
    (hlast : '\x27' ∉ name.toList.getLast?) :
    (∀ (text : String) (c : CellRef), Spells text c →
        CellRef.parse (quoted name ++ "!" ++ text) = .ok (c.onSheet name) ∧
          (c.onSheet name).sheetName? = some name) ∧
      (':' ∉ name.toList → ∀ (text text' : String) (c c' : CellRef), Spells text c →
        Spells text' c' →
          RangeRef.parse (quoted name ++ "!" ++ text ++ ":" ++ text') = .ok ⟨c.onSheet name, c'⟩ ∧
            (c.onSheet name).sheetName? = some name) := by
  have hfound : ∀ c : CellRef, (c.onSheet name).sheetName? = some name := fun _ =>
    sheetName?_onSheet_eq_iff.2 ⟨hfirst, hlast⟩
  refine ⟨fun text c h => ⟨?_, hfound c⟩, fun hname text text' c c' h h' => ⟨?_, hfound c⟩⟩
  · have hchars : (quoted name ++ "!" ++ text).toList =
        (quoted name).toList ++ '!' :: text.toList := by
      simp
    rw [CellRef.parse, hchars, ofChars_onSheet h name]
  · exact parse_range_onSheet h h' hname

/-- Blanks, a dollar sign, an exclamation mark and runs of apostrophes inside a name. -/
theorem quoted_names_read_back_sample :
    '\x27' ∉ " it''s 5$! 'q' x".toList.head? ∧ '\x27' ∉ " it''s 5$! 'q' x".toList.getLast? ∧
      CellRef.parse "' it''''s 5$! ''q'' x'!$C$7" =
        .ok { sheet := "' it''''s 5$! ''q'' x'", col := 3, row := 7, colFixed := true,
              rowFixed := true } ∧
      RangeRef.parse "' it''''s 5$! ''q'' x'!c07:$H20" =
        .ok ⟨{ sheet := "' it''''s 5$! ''q'' x'", col := 3, row := 7 },
          { col := 8, row := 20, colFixed := true }⟩ ∧
      CellRef.sheetName? { sheet := "' it''''s 5$! ''q'' x'", col := 3, row := 7 } =
        some " it''s 5$! 'q' x" := by
  have hfirst : '\x27' ∉ " it''s 5$! 'q' x".toList.head? := by decide +kernel
  have hlast : '\x27' ∉ " it''s 5$! 'q' x".toList.getLast? := by decide +kernel
  obtain ⟨hcell, hrange⟩ := quoted_names_read_back hfirst hlast
  have hquoted : quoted " it''s 5$! 'q' x" = "' it''''s 5$! ''q'' x'" := by decide +kernel
  have hfixed : Spells "$C$7" { col := 3, row := 7, colFixed := true, rowFixed := true } := by
    rw [show "$C$7" = a1 { col := 3, row := 7, colFixed := true, rowFixed := true } by
      decide +kernel]
    exact spells_a1 ⟨by simp, by decide, by decide, by decide, by decide⟩ rfl
  have hlower : Spells "c07" { col := 3, row := 7 } :=
    ⟨rfl, ['c'], ['0', '7'], rfl, ⟨by decide, by simp, rfl, by decide, by decide⟩,
      by decide, by simp, rfl, by decide, by decide⟩
  have hstop : Spells "$H20" { col := 8, row := 20, colFixed := true } := by
    rw [show "$H20" = a1 { col := 8, row := 20, colFixed := true } by decide +kernel]
    exact spells_a1 ⟨by simp, by decide, by decide, by decide, by decide⟩ rfl
  have hread := hcell _ _ hfixed
  have hread' := hrange (by decide +kernel) _ _ _ _ hlower hstop
  simp only [onSheet, hquoted] at hread hread'
  exact ⟨hfirst, hlast, hread.1, hread'.1, hread'.2⟩

end CellRef

end SheetTemplate
