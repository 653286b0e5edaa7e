import Mathlib.Data.List.DropRight
import SheetTemplate.Proofs.ColumnLetters
import SheetTemplate.Proofs.Outcomes
import SheetTemplate.Reference.Range

/-!
# References read back as they were written

Moving a region writes its reference as text, and the next move reads this text again. The two
forms agree inside the sheet limits, with the qualifier and the markers kept.

## Key results

- `CellRef.ofChars_chars`, `RangeRef.parse?_a1`: what is `Readable` reads back
- `CellRef.readable_of_ofChars`, `RangeRef.readable_of_parse?`: what was read is `Readable`
- `references_read_back`: writing and reading, for references and ranges
-/

namespace SheetTemplate.Text

/-- Nothing is dropped from the ends of a text that has none of the characters there. -/
theorem dropEnds_eq_self {p : Char → Bool} {cs : List Char} (hhead : ∀ c ∈ cs.head?, p c = false)
    (hlast : ∀ c ∈ cs.getLast?, p c = false) : (cs.dropWhile p).rdropWhile p = cs := by
  have hl : cs.dropWhile p = cs := by
    cases cs with
    | nil => rfl
    | cons c r => simp [hhead c (by simp)]
  rw [hl]
  refine List.rdropWhile_eq_self_iff.2 fun hne hdropped => ?_
  have := hlast (cs.getLast hne) (by simp [List.getLast?_eq_some_getLast hne])
  simp [this] at hdropped

/-- What is left between the ends does not begin with a character that was dropped. -/
theorem head_dropEnds {p : Char → Bool} {cs : List Char} {c : Char}
    (h : c ∈ ((cs.dropWhile p).rdropWhile p).head?) : p c = false := by
  obtain ⟨r, hr⟩ := List.rdropWhile_prefix p (cs.dropWhile p)
  have hhead : (cs.dropWhile p).head? = some c := by
    rw [← hr]
    cases hleft : (cs.dropWhile p).rdropWhile p with
    | nil => simp [hleft] at h
    | cons x s => simpa [hleft] using h
  have := List.head?_dropWhile_not p cs
  rw [hhead] at this
  simpa using this

/-- Text without blanks at its ends is not trimmed. -/
theorem trim_eq_self {cs : List Char} (hhead : ∀ c ∈ cs.head?, isBlank c = false)
    (hlast : ∀ c ∈ cs.getLast?, isBlank c = false) : trim cs = cs :=
  dropEnds_eq_self hhead hlast

/-- Trimmed text does not begin with a blank. -/
theorem isBlank_head_trim {cs : List Char} {c : Char} (h : c ∈ (trim cs).head?) :
    isBlank c = false :=
  head_dropEnds h

/-- Trimming adds no character. -/
theorem mem_of_mem_trim {cs : List Char} {c : Char} (h : c ∈ trim cs) : c ∈ cs := by
  have hstart : trim cs <+: cs.dropWhile isBlank := List.rdropWhile_prefix isBlank _
  exact (List.dropWhile_suffix _).subset (hstart.subset h)

/-- A text is cut at the first mark when none stands before it. -/
theorem cutFirst?_append {c : Char} {before : List Char} (after : List Char) (h : c ∉ before) :
    cutFirst? c (before ++ c :: after) = some (before, after) := by
  induction before with
  | nil => simp [cutFirst?]
  | cons x r ih =>
    obtain ⟨hx, hr⟩ := not_or.1 (List.mem_cons.not.1 h)
    simp [cutFirst?, Ne.symm hx, ih hr]

/-- It is cut at the last mark when none stands behind it. -/
theorem cutLast?_append {c : Char} (before : List Char) {after : List Char} (h : c ∉ after) :
    cutLast? c (before ++ c :: after) = some (before, after) := by
  induction before with
  | nil => simp [cutLast?, cutLast?_eq_none.2 h]
  | cons x r ih => simp [cutLast?, ih]

/-- A number is written by its digits. -/
theorem toList_toString (n : Nat) : (toString n).toList = numeral n := by simp [numeral]

/-- A written number that can be read is read as it was. -/
theorem eq_of_natural?_numeral {bound n m : Nat} (h : natural? bound (numeral n) = some m) :
    m = n := by
  have hplus : ∀ r, numeral n ≠ '+' :: r := fun r hr =>
    absurd (isDigit_of_mem_numeral (n := n) (c := '+') (by simp [hr])) (by decide)
  unfold natural? at h
  split at h
  · rename_i r hr
    exact absurd hr (hplus r)
  · dsimp only at h
    rw [digits?_numeral] at h
    exact (Option.some.inj (Option.filter_eq_some_iff.1 h).1).symm

end SheetTemplate.Text

namespace SheetTemplate

open Text

namespace CellRef

/-- A reference that keeps its text: it lies inside the sheet, and its qualifier does not begin
with a blank. -/
structure Readable (c : CellRef) : Prop where
  qualifier : ∀ q ∈ c.sheet, ∀ x ∈ q.toList.head?, isBlank x = false
  col_pos : 0 < c.col
  col_le : c.col ≤ maxCols
  row_pos : 0 < c.row
  row_le : c.row ≤ maxRows

/-- The dollar sign of a marker. -/
def markerChars (fixed : Bool) : List Char := if fixed then ['$'] else []

/-- The characters of a reference after its qualifier. -/
def localChars (c : CellRef) : List Char :=
  markerChars c.colFixed ++ (Column.letters c.col ++ (markerChars c.rowFixed ++ numeral c.row))

/-- The characters of a qualifier with its exclamation mark. -/
def qualifierChars : Option String → List Char
  | some q => q.toList ++ ['!']
  | none => []

/-- A reference is its qualifier and its place on the sheet. -/
theorem chars_eq (c : CellRef) : c.chars = qualifierChars c.sheet ++ c.localChars := by
  rcases c with ⟨_ | q, col, row, colFixed, rowFixed⟩ <;>
    simp [chars, localChars, qualifierChars, markerChars]

/-- A marker is read back when no marker follows. -/
private theorem marker_markerChars {fixed : Bool} {r : List Char} (h : '$' ∉ r.head?) :
    marker (markerChars fixed ++ r) = (fixed, r) := by
  -- Without a marker the text begins with what follows, which is no dollar sign.
  cases fixed with
  | true => rfl
  | false =>
    cases r with
    | nil => rfl
    | cons x r =>
      unfold markerChars marker
      split
      · rename_i heq
        simp only [Bool.false_eq_true, ↓reduceIte, List.nil_append, List.cons.injEq] at heq
        simp [heq.1] at h
      · rfl

/-- A marker and what follows it are the text again. -/
private theorem markerChars_marker (cs : List Char) :
    markerChars (marker cs).1 ++ (marker cs).2 = cs := by
  unfold marker
  split <;> rfl

/-- A column is written with letters, the first of which is one. -/
theorem isAlpha_head_letters {n : Nat} (h : 0 < n) :
    ∃ x r, Column.letters n = x :: r ∧ x.isAlpha = true := by
  cases hl : Column.letters n with
  | nil => exact absurd hl (Column.letters_ne_nil h)
  | cons x r => exact ⟨x, r, rfl, Column.isAlpha_of_mem_letters (n := n) (by simp [hl])⟩

/-- A digit is a character between two others. -/
private theorem toNat_le_of_isDigit {x : Char} (h : x.isDigit = true) :
    48 ≤ x.toNat ∧ x.toNat ≤ 57 := by
  simp only [Char.isDigit, Bool.and_eq_true, decide_eq_true_eq] at h
  exact h

/-- No digit is a letter. -/
theorem isAlpha_of_isDigit {x : Char} (h : x.isDigit = true) : x.isAlpha = false := by
  have hall : ∀ k : Fin 58, (Char.ofNat k.val).isAlpha = false := by decide
  have hx := toNat_le_of_isDigit h
  exact Column.of_forall_ofNat (P := fun x => x.isAlpha = false) hall (by omega)

/-- The place on the sheet consists of letters, digits and markers. -/
private theorem not_mem_localChars {x : Char} (c : CellRef) (halpha : x.isAlpha = false)
    (hdigit : x.isDigit = false) (hdollar : x ≠ '$') : x ∉ c.localChars := by
  intro h
  simp only [localChars, List.mem_append] at h
  -- Markers, letters and digits are all there is.
  have hmarker : ∀ fixed, x ∉ markerChars fixed := by
    intro fixed
    cases fixed <;> simp [markerChars, hdollar]
  rcases h with h | h | h | h
  · exact hmarker _ h
  · rw [Column.isAlpha_of_mem_letters h] at halpha
    exact Bool.noConfusion halpha
  · exact hmarker _ h
  · rw [isDigit_of_mem_numeral h] at hdigit
    exact Bool.noConfusion hdigit

/-- The qualifier ends at the last exclamation mark. -/
theorem qualifier_eq_iff {cs cell : List Char} {sheet : Option String} :
    qualifier cs = (sheet, cell) ↔ cs = qualifierChars sheet ++ cell ∧ '!' ∉ cell := by
  -- The qualifier goes up to the last exclamation mark.
  constructor
  · intro h
    unfold qualifier at h
    split at h
    · rename_i before after hcut
      cases h
      simpa [qualifierChars] using cutLast?_eq_some hcut
    · rename_i hcut
      cases h
      exact ⟨rfl, cutLast?_eq_none.1 hcut⟩
  · rintro ⟨rfl, hmark⟩
    cases sheet with
    | none => simp [qualifierChars, qualifier, cutLast?_eq_none.2 hmark]
    | some q => simp [qualifierChars, qualifier, cutLast?_append q.toList hmark]

/-- A qualifier and what follows it are the text again. -/
theorem qualifierChars_qualifier (cs : List Char) :
    qualifierChars (qualifier cs).1 ++ (qualifier cs).2 = cs := (qualifier_eq_iff.1 rfl).1.symm

/-- The qualifier of a written reference is found again. -/
theorem qualifier_chars (c : CellRef) : qualifier c.chars = (c.sheet, c.localChars) :=
  qualifier_eq_iff.2
    ⟨chars_eq c, not_mem_localChars c (by decide) (by decide) (by decide)⟩

/-- A written reference ends with a digit. -/
private theorem getLast?_chars (c : CellRef) {x : Char} (h : x ∈ c.chars.getLast?) :
    x.isDigit = true := by
  have hne := numeral_ne_nil c.row
  have hlast : c.chars.getLast? = (numeral c.row).getLast? := by
    rw [chars_eq, localChars]
    simp only [← List.append_assoc]
    rw [List.getLast?_append_of_ne_nil _ hne]
  rw [hlast] at h
  exact isDigit_of_mem_numeral (List.mem_of_getLast? h)

/-- No digit is blank. -/
theorem isBlank_of_isDigit {x : Char} (h : x.isDigit = true) : isBlank x = false := by
  have hall : ∀ k : Fin 58, (Char.ofNat k.val).isDigit = true →
      isBlank (Char.ofNat k.val) = false := by decide
  have hx := toNat_le_of_isDigit h
  exact Column.of_forall_ofNat (P := fun x => x.isDigit = true → isBlank x = false) hall
    (by omega) h

/-- The digits of a number have no blanks around them. -/
theorem trim_numeral (n : Nat) : trim (numeral n) = numeral n :=
  trim_eq_self (fun _ hx => isBlank_of_isDigit (isDigit_of_mem_numeral (List.mem_of_head? hx)))
    fun _ hx => isBlank_of_isDigit (isDigit_of_mem_numeral (List.mem_of_getLast? hx))

/-- No letter is blank. -/
theorem isBlank_of_isAlpha {x : Char} (h : x.isAlpha = true) : isBlank x = false := by
  have hall : ∀ k : Fin 123, (Char.ofNat k.val).isAlpha = true →
      isBlank (Char.ofNat k.val) = false := by decide
  have hx := Column.toNat_le_of_isAlpha h
  exact Column.of_forall_ofNat (P := fun x => x.isAlpha = true → isBlank x = false) hall
    (by omega) h

/-- A written reference does not begin with a blank. -/
private theorem isBlank_head_chars {c : CellRef} (hcol : 0 < c.col)
    (hq : ∀ q ∈ c.sheet, ∀ x ∈ q.toList.head?, isBlank x = false) :
    ∀ x ∈ c.chars.head?, isBlank x = false := by
  obtain ⟨l, r, hletters, hl⟩ := isAlpha_head_letters hcol
  intro x hx
  rw [chars_eq] at hx
  cases hs : c.sheet with
  | none =>
    -- The first character is the dollar sign of the column or its first letter.
    cases hf : c.colFixed <;>
      simp only [hs, qualifierChars, localChars, hf, markerChars, hletters, Bool.false_eq_true,
        ↓reduceIte, List.nil_append, List.cons_append, List.head?_cons, Option.mem_def,
        Option.some.injEq] at hx
    · exact hx ▸ isBlank_of_isAlpha hl
    · subst hx
      decide
  | some q =>
    -- An empty qualifier leaves the exclamation mark in front.
    cases hchars : q.toList with
    | nil =>
      simp only [hs, qualifierChars, hchars, List.nil_append, List.cons_append, List.head?_cons,
        Option.mem_def, Option.some.injEq] at hx
      subst hx
      decide
    | cons y s =>
      simp only [hs, qualifierChars, hchars, List.cons_append, List.head?_cons, Option.mem_def,
        Option.some.injEq] at hx
      exact hq q hs x (by simp [hchars, hx])

/-- What is read after the qualifier, once markers and letters are split off and before limits
are looked at. -/
theorem parseLocal_append (text : String) (sheet : Option String) (fixed fixed' : Bool)
    {letters digits : List Char} (hne : letters ≠ []) (hletters : ∀ x ∈ letters, x.isAlpha = true)
    (hne' : digits ≠ []) (hdigits : ∀ x ∈ digits.head?, x.isAlpha = false ∧ x ≠ '$') :
    parseLocal text sheet (markerChars fixed ++ (letters ++ (markerChars fixed' ++ digits))) =
      (Column.number letters).bind fun col =>
        match natural? max32 digits with
        | none => .error (.badRow text)
        | some row =>
          if row = 0 ∨ maxRows < row then .error (.rowOutOfRange text)
          else if maxCols < col then .error (.columnOutOfRange text)
          else .ok { sheet, col, row, colFixed := fixed, rowFixed := fixed' } := by
  -- Neither a letter nor what follows the letters is taken for a marker.
  have hfirst : marker (markerChars fixed ++ (letters ++ (markerChars fixed' ++ digits))) =
      (fixed, letters ++ (markerChars fixed' ++ digits)) := by
    refine marker_markerChars fun h => ?_
    rw [List.head?_append_of_ne_nil _ hne] at h
    exact absurd (hletters _ (List.mem_of_head? h)) (by decide)
  have hsecond : marker (markerChars fixed' ++ digits) = (fixed', digits) :=
    marker_markerChars fun h => (hdigits _ h).2 rfl
  -- The letters end where the marker of the row or its number stands.
  have hstop : (markerChars fixed' ++ digits).takeWhile Char.isAlpha = [] ∧
      (markerChars fixed' ++ digits).dropWhile Char.isAlpha = markerChars fixed' ++ digits := by
    cases fixed' with
    | true => exact ⟨rfl, rfl⟩
    | false =>
      cases hd : digits with
      | nil => exact absurd hd hne'
      | cons x s => simp [markerChars, (hdigits x (by simp [hd])).1]
  have hempty : letters.isEmpty = false ∧ digits.isEmpty = false := by simp [hne, hne']
  unfold parseLocal
  simp only [hfirst, List.takeWhile_append_of_pos hletters, List.dropWhile_append_of_pos hletters,
    hstop.1, hstop.2, List.append_nil, hempty.1, hempty.2, Bool.false_eq_true, ↓reduceIte, hsecond]
  cases Column.number letters with
  | error e => rfl
  | ok col =>
    simp only [bind, Except.bind, throw, throwThe, MonadExceptOf.throw, pure, Except.pure]
    cases natural? max32 digits with
    | none => rfl
    | some row => dsimp only

/-- What is read from the local part of a written reference. -/
private theorem parseLocal_localChars {c : CellRef} (text : String) (hcol : 0 < c.col) :
    parseLocal text c.sheet c.localChars =
      (Column.number (Column.letters c.col)).bind fun col =>
        match natural? max32 (numeral c.row) with
        | none => .error (.badRow text)
        | some row =>
          if row = 0 ∨ maxRows < row then .error (.rowOutOfRange text)
          else if maxCols < col then .error (.columnOutOfRange text)
          else .ok { c with col, row } := by
  refine parseLocal_append text c.sheet c.colFixed c.rowFixed (Column.letters_ne_nil hcol)
    (fun _ hx => Column.isAlpha_of_mem_letters hx) (numeral_ne_nil c.row) fun x hx => ?_
  have hdigit : x.isDigit = true := isDigit_of_mem_numeral (List.mem_of_head? hx)
  refine ⟨isAlpha_of_isDigit hdigit, ?_⟩
  rintro rfl
  exact absurd hdigit (by decide)

/-- What was read after the qualifier: markers, letters and a number, inside the sheet limits. -/
theorem parseLocal_eq_ok {text : String} {sheet : Option String} {cell : List Char} {c : CellRef}
    (h : parseLocal text sheet cell = .ok c) :
    c.sheet = sheet ∧
      ∃ letters digits,
        cell = markerChars c.colFixed ++ (letters ++ (markerChars c.rowFixed ++ digits)) ∧
          Column.number letters = .ok c.col ∧ c.col ≤ maxCols ∧
            natural? max32 digits = some c.row ∧ 0 < c.row ∧ c.row ≤ maxRows := by
  -- The branches are those of reading: only the last one gives a reference, and it has passed all
  -- the checks.
  unfold parseLocal at h
  dsimp only at h
  split at h
  · exact nomatch h
  · obtain ⟨col, hcol, h⟩ := bind_eq_ok.1 h
    split at h
    · exact nomatch h
    · split at h
      · rename_i row hread
        split at h
        · exact nomatch h
        · split at h
          · exact nomatch h
          · rename_i hrow hmax
            cases h
            refine ⟨rfl, _, _, ?_, hcol, Nat.le_of_not_lt hmax, hread, ?_, ?_⟩
            · rw [markerChars_marker, List.takeWhile_append_dropWhile, markerChars_marker]
            all_goals
              dsimp only
              omega
      · exact nomatch h

/-- What was read keeps its text. -/
theorem readable_of_ofChars {cs : List Char} {c : CellRef} (h : ofChars cs = .ok c) :
    c.Readable := by
  unfold ofChars at h
  dsimp only at h
  split at h
  · exact nomatch h
  · obtain ⟨hsheet, letters, digits, -, hcol, hcols, -, hrow, hrows⟩ := parseLocal_eq_ok h
    refine ⟨fun q hq x hx => ?_, Column.number_pos hcol, hcols, hrow, hrows⟩
    -- The qualifier stands at the beginning of the trimmed text.
    have hhead : x ∈ (trim cs).head? := by
      rw [← qualifierChars_qualifier (trim cs), ← hsheet, hq]
      cases hchars : q.toList with
      | nil => simp [hchars] at hx
      | cons y s => simpa [qualifierChars, hchars] using hx
    exact isBlank_head_trim hhead

/-- A written reference is not trimmed. -/
private theorem trim_chars {c : CellRef} (hcol : 0 < c.col)
    (hq : ∀ q ∈ c.sheet, ∀ x ∈ q.toList.head?, isBlank x = false) : trim c.chars = c.chars :=
  trim_eq_self (isBlank_head_chars hcol hq) fun _ hx => isBlank_of_isDigit (getLast?_chars c hx)

/-- A reference with a good qualifier is read as the local part says. -/
private theorem ofChars_eq_parseLocal {c : CellRef} (hcol : 0 < c.col)
    (hq : ∀ q ∈ c.sheet, ∀ x ∈ q.toList.head?, isBlank x = false) :
    ofChars c.chars = parseLocal (String.ofList c.chars) c.sheet c.localChars := by
  have hne : c.chars.isEmpty = false := by
    have hnum := numeral_ne_nil c.row
    simp [chars_eq, localChars, hnum]
  simp [ofChars, trim_chars hcol hq, hne, qualifier_chars]

/-- A reference inside the sheet limits reads back as it was written. -/
theorem ofChars_chars {c : CellRef} (h : c.Readable) : ofChars c.chars = .ok c := by
  have hcol : Column.number (Column.letters c.col) = .ok c.col :=
    Column.number_letters h.col_pos (Nat.le_trans h.col_le limits_le_max32.1)
  have hrow : natural? max32 (numeral c.row) = some c.row :=
    natural?_numeral (Nat.le_trans h.row_le limits_le_max32.2)
  have hrow0 : ¬(c.row = 0 ∨ maxRows < c.row) := by
    have := h.row_pos
    have := h.row_le
    omega
  have hcol0 : ¬maxCols < c.col := by
    have := h.col_le
    omega
  rw [ofChars_eq_parseLocal h.col_pos h.qualifier, parseLocal_localChars _ h.col_pos, hcol, hrow]
  simp [Except.bind, hrow0, hcol0]

/-- The form without a qualifier, as cells carry it. -/
theorem parse?_a1 {c : CellRef} (h : c.Readable) : parse? c.a1 = some c := by
  simp [parse?, parse, a1, ofChars_chars h, Except.toOption]

/-- A reference that was read can be read back. -/
theorem readable_of_parse? {s : String} {c : CellRef} (h : parse? s = some c) : c.Readable := by
  unfold parse? parse at h
  cases hparse : ofChars s.toList with
  | error e => exact nomatch (hparse ▸ h)
  | ok c' =>
    rw [hparse] at h
    cases h
    exact readable_of_ofChars hparse

/-- A reference without letters cannot be read. -/
private theorem ofChars_numeral {row : Nat} {c : CellRef} (h : ofChars (numeral row) = .ok c) :
    False := by
  -- A number has no letters, and a reference without letters is not read.
  have hdigit : ∀ x ∈ numeral row, x.isDigit = true := fun _ hx => isDigit_of_mem_numeral hx
  have htrim := trim_numeral row
  have hmark : cutLast? '!' (numeral row) = none :=
    cutLast?_eq_none.2 fun hmem => absurd (hdigit _ hmem) (by decide)
  have hmarker : marker (numeral row) = (false, numeral row) := by
    show marker (markerChars false ++ numeral row) = (false, numeral row)
    refine marker_markerChars fun hhead => ?_
    exact absurd (hdigit _ (List.mem_of_head? hhead)) (by decide)
  have hletters : (numeral row).takeWhile Char.isAlpha = [] := by
    cases hn : numeral row with
    | nil => rfl
    | cons x r => simp [isAlpha_of_isDigit (hdigit x (by simp [hn]))]
  simp [ofChars, htrim, numeral_ne_nil, qualifier, hmark, parseLocal, hmarker, hletters, throw,
    throwThe, MonadExceptOf.throw, bind, Except.bind] at h

/-- A written reference without a qualifier that can be read at all is read as it was. -/
theorem eq_of_parse?_a1 {c ref : CellRef} (hsheet : c.sheet = none) (hfixed : c.colFixed = false)
    (hfixed' : c.rowFixed = false) (h : parse? c.a1 = some ref) : ref = c := by
  obtain ⟨sheet, col, row, colFixed, rowFixed⟩ := c
  dsimp only at hsheet hfixed hfixed'
  subst hsheet hfixed hfixed'
  have hread : ofChars (CellRef.mk none col row false false).chars = .ok ref := by
    unfold parse? parse a1 at h
    rw [String.toList_ofList] at h
    generalize ofChars _ = result at h ⊢
    cases result with
    | error e => exact nomatch h
    | ok c =>
      cases h
      rfl
  -- A column of number zero has no letters, so nothing would be read.
  rcases Nat.eq_zero_or_pos col with rfl | hcol
  · exact (ofChars_numeral (by simpa using hread)).elim
  · rw [ofChars_eq_parseLocal hcol (by simp), parseLocal_localChars _ hcol] at hread
    obtain ⟨n, hn, hread⟩ := bind_eq_ok.1 hread
    have hcols := Column.eq_of_number_letters hn
    dsimp only at hcols hread
    split at hread
    · exact nomatch hread
    · rename_i m hm
      -- Letters and digits that are read as numbers are those of these numbers.
      have hrows := eq_of_natural?_numeral hm
      split at hread
      · exact nomatch hread
      · split at hread
        · exact nomatch hread
        · cases hread
          rw [hcols, hrows]

end CellRef

namespace RangeRef

/-- A range that keeps its text: its corners do, and its first colon is the one between them. -/
structure Readable (r : RangeRef) : Prop where
  start : r.start.Readable
  stop : r.stop.Readable
  colon : ∀ q ∈ r.start.sheet, ':' ∉ q.toList

/-- A colon could stand in the qualifier only. -/
private theorem colon_not_mem_chars {c : CellRef} (h : ∀ q ∈ c.sheet, ':' ∉ q.toList) :
    ':' ∉ c.chars := by
  rw [CellRef.chars_eq, List.mem_append, not_or]
  refine ⟨?_, CellRef.not_mem_localChars c (by decide) (by decide) (by decide)⟩
  cases hs : c.sheet with
  | none => simp [CellRef.qualifierChars]
  | some q => simp [CellRef.qualifierChars, h q hs]

/-- A qualifier stands in the text it was read from. -/
private theorem colon_not_mem_sheet {cs : List Char} {c : CellRef} (h : CellRef.ofChars cs = .ok c)
    (hcs : ':' ∉ cs) : ∀ q ∈ c.sheet, ':' ∉ q.toList := by
  intro q hq hmem
  unfold CellRef.ofChars at h
  dsimp only at h
  split at h
  · exact nomatch h
  · have hsheet := (CellRef.parseLocal_eq_ok h).1
    refine hcs (mem_of_mem_trim ?_)
    rw [← CellRef.qualifierChars_qualifier (trim cs), ← hsheet, hq]
    simp [CellRef.qualifierChars, hmem]

/-- Reading with and without an error. -/
private theorem parse?_eq_some {s : String} {r : RangeRef} :
    parse? s = some r ↔ parse s = .ok r := by
  cases h : parse s <;> simp [parse?, h, Except.toOption]

/-- The text of a range is not trimmed, and it is cut between the corners. -/
private theorem parse_a1 {r : RangeRef} (hstart : 0 < r.start.col)
    (hq : ∀ q ∈ r.start.sheet, ∀ x ∈ q.toList.head?, isBlank x = false)
    (hcolon : ∀ q ∈ r.start.sheet, ':' ∉ q.toList) :
    parse r.a1 = (do
      let start ← corner (.badStart r.a1) r.start.chars
      let stop ← corner (.badStop r.a1) r.stop.chars
      return { start, stop }) := by
  have hne : ∀ c : CellRef, c.chars ≠ [] := by
    intro c
    simp [CellRef.chars_eq, CellRef.localChars, numeral_ne_nil]
  have htrim : trim (r.start.chars ++ ':' :: r.stop.chars) =
      r.start.chars ++ ':' :: r.stop.chars := by
    -- The first corner does not begin with a blank, and the second one ends with a digit.
    refine trim_eq_self (fun x hx => ?_) fun x hx => ?_
    · rw [List.head?_append_of_ne_nil _ (hne r.start)] at hx
      exact CellRef.isBlank_head_chars hstart hq x hx
    · rw [List.getLast?_append_of_ne_nil _ (by simp)] at hx
      refine CellRef.isBlank_of_isDigit (CellRef.getLast?_chars r.stop ?_)
      rwa [List.getLast?_cons_of_ne_nil (hne r.stop)] at hx
  unfold parse
  simp only [a1, String.toList_ofList, htrim, cutFirst?_append _ (colon_not_mem_chars hcolon)]

/-- A range inside the sheet limits reads back as it was written. -/
theorem parse?_a1 {r : RangeRef} (h : r.Readable) : parse? r.a1 = some r := by
  rw [parse?_eq_some, parse_a1 h.start.col_pos h.start.qualifier h.colon]
  simp [corner, CellRef.ofChars_chars h.start, CellRef.ofChars_chars h.stop, bind, Except.bind,
    pure, Except.pure]

/-- The reference to a single cell reads as a range of one cell. -/
theorem parse?_cell_a1 {c : CellRef} (h : c.Readable) (hcolon : ∀ q ∈ c.sheet, ':' ∉ q.toList) :
    parse? c.a1 = some ⟨c, c⟩ := by
  have htrim := CellRef.trim_chars h.col_pos h.qualifier
  simp [parse?, parse, CellRef.a1, htrim, cutFirst?_eq_none.2 (colon_not_mem_chars hcolon),
    CellRef.ofChars_chars h, Except.toOption]

/-- What was read keeps its text. -/
theorem readable_of_parse? {s : String} {r : RangeRef} (h : parse? s = some r) : r.Readable := by
  -- A corner is read as a reference; only the error differs.
  have hcorner : ∀ {fault cs c}, corner fault cs = .ok c → CellRef.ofChars cs = .ok c := by
    intro fault cs c hread
    unfold corner at hread
    split at hread
    · cases hread
      assumption
    · exact nomatch hread
  rw [parse?_eq_some] at h
  unfold parse at h
  dsimp only at h
  split at h
  -- With a colon both corners are read; without one the single reference is both corners.
  · rename_i a b hcut
    obtain ⟨start, hs, h⟩ := bind_eq_ok.1 h
    obtain ⟨stop, ht, h⟩ := bind_eq_ok.1 h
    cases h
    exact ⟨CellRef.readable_of_ofChars (hcorner hs), CellRef.readable_of_ofChars (hcorner ht),
      colon_not_mem_sheet (hcorner hs) (cutFirst?_eq_some hcut).2⟩
  · rename_i hcut
    split at h
    · rename_i c hc
      cases h
      have hread := CellRef.readable_of_ofChars hc
      exact ⟨hread, hread, colon_not_mem_sheet hc (cutFirst?_eq_none.1 hcut)⟩
    · exact nomatch h

/-! ### Single references -/

/-- What is written without a colon is a single reference. -/
theorem start_eq_stop_of_parse? {s : String} {r : RangeRef} (h : parse? s = some r)
    (hs : isWritten s = false) : r.start = r.stop := by
  have hcolon : ':' ∉ trim s.toList := fun hmem => by
    have := mem_of_mem_trim hmem
    simp [isWritten, this] at hs
  rw [parse?_eq_some, parse] at h
  simp only [cutFirst?_eq_none.2 hcolon] at h
  split at h
  · cases h
    rfl
  · exact nomatch h

/-- A range is written as one. -/
theorem isWritten_a1 (r : RangeRef) : isWritten r.a1 = true := by
  simp [isWritten, a1]

/-- A reference without a colon in its qualifier is not written as a range. -/
theorem isWritten_cell_a1 {c : CellRef} (h : ∀ q ∈ c.sheet, ':' ∉ q.toList) :
    isWritten c.a1 = false := by
  simp [isWritten, CellRef.a1, colon_not_mem_chars h]

end RangeRef

/-! ### Writing and reading -/

/-- Round trips of references and ranges: inside the sheet limits, and with qualifiers that keep
their place in the text, they are read as they were written. All that was ever read is of this
kind. -/
theorem references_read_back :
    (∀ c : CellRef, c.Readable → CellRef.parse c.a1 = .ok c) ∧
      (∀ r : RangeRef, r.Readable → RangeRef.parse r.a1 = .ok r) ∧
      (∀ (s : String) (c : CellRef), CellRef.parse s = .ok c → CellRef.parse c.a1 = .ok c) ∧
      ∀ (s : String) (r : RangeRef), RangeRef.parse s = .ok r → RangeRef.parse r.a1 = .ok r := by
  have hcell : ∀ c : CellRef, c.Readable → CellRef.parse c.a1 = .ok c := by
    intro c hc
    rw [CellRef.parse, CellRef.a1, String.toList_ofList, CellRef.ofChars_chars hc]
  have hrange : ∀ r : RangeRef, r.Readable → RangeRef.parse r.a1 = .ok r := fun r hr =>
    RangeRef.parse?_eq_some.1 (RangeRef.parse?_a1 hr)
  exact ⟨hcell, hrange, fun s c hc => hcell c (CellRef.readable_of_ofChars hc),
    fun s r hr => hrange r (RangeRef.readable_of_parse? (RangeRef.parse?_eq_some.2 hr))⟩

/-- Exclamation marks and dollar signs in a qualifier are kept, and colons in that of the second
corner. What is read from another spelling is read again from its own. -/
theorem references_read_back_sample :
    CellRef.parse "'a!b'!$XFD1048576" =
        .ok { sheet := "'a!b'", col := 16384, row := 1048576, colFixed := true } ∧
      RangeRef.parse "$!A1:x:y!B$2" =
        .ok ⟨{ sheet := "$", col := 1, row := 1 },
          { sheet := "x:y", col := 2, row := 2, rowFixed := true }⟩ ∧
      CellRef.parse "p !B7" = .ok { sheet := "p ", col := 2, row := 7 } ∧
      RangeRef.parse "C3:C3" = .ok ⟨{ col := 3, row := 3 }, { col := 3, row := 3 }⟩ := by
  obtain ⟨hcell, hrange, hcell', hrange'⟩ := references_read_back
  have hlast : ({ sheet := "'a!b'", col := 16384, row := 1048576, colFixed := true } :
      CellRef).Readable :=
    ⟨by simp [isBlank], by decide, by decide, by decide, by decide⟩
  have hstart : ({ sheet := "$", col := 1, row := 1 } : CellRef).Readable :=
    ⟨by simp [isBlank], by decide, by decide, by decide, by decide⟩
  have hstop : ({ sheet := "x:y", col := 2, row := 2, rowFixed := true } : CellRef).Readable :=
    ⟨by simp [isBlank], by decide, by decide, by decide, by decide⟩
  have hspelled : CellRef.parse " p !b07 " = .ok { sheet := "p ", col := 2, row := 7 } := rfl
  have hsingle : RangeRef.parse "c3" = .ok ⟨{ col := 3, row := 3 }, { col := 3, row := 3 }⟩ := rfl
  refine ⟨?_, ?_, ?_, ?_⟩
  · have hwritten := hcell _ hlast
    rwa [show CellRef.a1 _ = "'a!b'!$XFD1048576" by decide +kernel] at hwritten
  · have hwritten := hrange ⟨_, _⟩ ⟨hstart, hstop, by decide⟩
    rwa [show RangeRef.a1 _ = "$!A1:x:y!B$2" by decide +kernel] at hwritten
  · have hwritten := hcell' _ _ hspelled
    rwa [show CellRef.a1 _ = "p !B7" by decide +kernel] at hwritten
  · have hwritten := hrange' _ _ hsingle
    rwa [show RangeRef.a1 _ = "C3:C3" by decide +kernel] at hwritten

end SheetTemplate
