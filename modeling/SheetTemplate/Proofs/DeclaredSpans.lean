import SheetTemplate.Proofs.ReferenceRoundTrip
import SheetTemplate.Proofs.SheetRun

/-!
# The columns that a row declares

A row may declare the columns that its cells stand in, as in `2:5`. Where columns are inserted on
the row, the end of the declared columns moves by as many.

## Key results

- `declaredSpan?_finishedRow`: what a row declares once it is finished
- `DeclaresTo.widenSpans`: how far the declared columns reach after more columns were inserted
-/

namespace SheetTemplate

namespace Text

/-- A non-empty run of digits begins with no sign. -/
private theorem isDigit_of_digits? {ds : List Char} {n : Nat} (h : digits? ds = some n) :
    ∀ c ∈ ds, c.isDigit = true := by
  unfold digits? at h
  split at h
  · exact nomatch h
  · rename_i hdigits
    simp only [Bool.or_eq_true, Bool.not_eq_true', not_or, Bool.not_eq_false] at hdigits
    exact List.all_eq_true.1 hdigits.2

/-- Digits read as an integer are the number they denote, if it is not too large. -/
theorem integer64?_of_digits? {ds : List Char} {n : Nat} (h : digits? ds = some n) :
    integer64? ds = if n ≤ Nat.pow 2 63 - 1 then some (n : Int) else none := by
  have hdigit := isDigit_of_digits? h
  unfold integer64?
  -- Digits have no sign in front.
  split
  · exact absurd (hdigit '-' (by simp)) (by decide)
  · have hnatural : natural? (Nat.pow 2 63 - 1) ds =
        if n ≤ Nat.pow 2 63 - 1 then some n else none := by
      unfold natural?
      dsimp only
      split
      · exact absurd (hdigit '+' (by simp)) (by decide)
      · rw [h, Option.filter_some]
        simp only [decide_eq_true_eq]
    rw [hnatural]
    split <;> rfl

end Text

namespace Fill

open Xml (Element)

/-- The first and the last column that a row declares, if it declares one range of them. -/
def declaredSpan? (row : Element) : Option (Nat × Nat) := do
  let spans ← row.attr? "spans"
  let (start, stop) ← Text.cutFirst? ':' spans.toList
  return (← Text.digits? start, ← Text.digits? stop)

/-- A natural number is written alike as an integer. -/
private theorem toList_toString_coe (n : Nat) : (toString (n : Int)).toList = Text.numeral n := by
  show (Nat.repr n).toList = _
  simp [Nat.repr, Text.numeral]

/-- A row declares columns from a first one on that reach up to a bound, or to an end too large
to be moved. -/
def DeclaresTo (first : Nat) (bound : Int) (row : Element) : Prop :=
  ∃ last : Nat, declaredSpan? row = some (first, last) ∧
    (bound ≤ last ∨ Nat.pow 2 63 - 1 < last)

/-- Inserted columns move the last declared column. -/
theorem DeclaresTo.widenSpans {row : Element} {first : Nat} {bound : Int}
    (hrow : DeclaresTo first bound row) (cols : Int) :
    DeclaresTo first (bound + cols) (widenSpans row cols) := by
  obtain ⟨last, h, hbound⟩ := hrow
  unfold declaredSpan? at h
  obtain ⟨spans, hspans, h⟩ := Option.bind_eq_some_iff.1 h
  obtain ⟨⟨start, stop⟩, hcut, h⟩ := Option.bind_eq_some_iff.1 h
  obtain ⟨first', hfirst, h⟩ := Option.bind_eq_some_iff.1 h
  obtain ⟨last', hlast, h⟩ := Option.bind_eq_some_iff.1 h
  cases h
  have hstop := Text.integer64?_of_digits? hlast
  by_cases hbig : last ≤ Nat.pow 2 63 - 1
  · -- The end is read, and written anew.
    rw [if_pos hbig] at hstop
    obtain ⟨n, hn⟩ : ∃ n : Nat, (n : Int) = max (last + cols) 1 :=
      ⟨_, Int.toNat_of_nonneg (by omega)⟩
    refine ⟨n, ?_, .inl (by omega)⟩
    have hwidened : Fill.widenSpans row cols =
        row.setAttr "spans" (String.ofList start ++ ":" ++ toString (n : Int)) := by
      simp [Fill.widenSpans, hspans, hcut, hstop, hn]
    have hnew : (String.ofList start ++ ":" ++ toString (n : Int)).toList =
        start ++ ':' :: Text.numeral n := by
      simp only [String.toList_append, String.toList_ofList, toList_toString_coe, List.append_assoc]
      rfl
    rw [hwidened, declaredSpan?, Element.attr?_setAttr_self, Option.bind_eq_bind, Option.bind_some,
      hnew, Text.cutFirst?_append _ (Text.cutFirst?_eq_some hcut).2]
    simp [hfirst]
  · -- The end is too large to be read, and stays.
    rw [if_neg hbig] at hstop
    refine ⟨last, ?_, .inr (Nat.lt_of_not_le hbig)⟩
    have hwidened : Fill.widenSpans row cols = row := by
      simp [Fill.widenSpans, hspans, hcut, hstop]
    rw [hwidened]
    simp [declaredSpan?, hspans, hcut, hfirst, hlast]

/-- The number and the cells of a row do not concern what it declares. -/
theorem declaredSpan?_congr {row row' : Element}
    (h : row'.attr? "spans" = row.attr? "spans") : declaredSpan? row' = declaredSpan? row := by
  simp [declaredSpan?, h]

/-- A finished row declares the columns of the source row, the last one moved by the columns
inserted. -/
theorem declaredSpan?_finishedRow {row : Element} {first last : Nat} (number : Nat)
    (cells : List Element) (cols : Int) (h : declaredSpan? row = some (first, last)) :
    ∃ last' : Nat,
      declaredSpan? (uncachedRow (Pass.finishedRow (bareRow row number) cells cols)) =
        some (first, last') ∧ ((last : Int) + cols ≤ last' ∨ maxCols ≤ last') := by
  -- The new number and the cells leave what the row declares.
  have hpushed : declaredSpan? ((bareRow row number).pushAll cells) = some (first, last) := by
    rw [← h]
    exact declaredSpan?_congr (by
      simp [bareRow, Element.attr?_setAttr_of_ne row (show "spans" ≠ "r" by decide)])
  rw [declaredSpan?_congr (attr?_uncachedRow _ "spans")]
  unfold Pass.finishedRow
  dsimp only
  split
  · rename_i hcols
    exact ⟨last, hpushed, .inl (by omega)⟩
  -- The end moves by the columns, or it is too large to be read and far beyond the sheet.
  · obtain ⟨last', hlast', hbound⟩ :=
      DeclaresTo.widenSpans ⟨last, hpushed, .inl (Int.le_refl _)⟩ cols
    have hfar : maxCols ≤ Nat.pow 2 63 - 1 := by decide
    exact ⟨last', hlast', hbound.imp_right fun hbig => by omega⟩

end Fill

end SheetTemplate
