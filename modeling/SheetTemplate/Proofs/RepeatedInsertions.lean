import Mathlib.Data.List.Perm.Basic
import SheetTemplate.Proofs.ReferencesInside

/-!
# Insertions add up

Rows may be inserted below a row, and then more rows below the same one. All that has moved for the
first rows lies below them and moves on for the others, and so do the copies of a merged region,
which leave room for the copies that it gets the second time. So both together come to the same as
one insertion of all rows, but for the order of the copies. Columns inserted at a cell add up as
well, and taking them away again restores what they moved.

Each step writes references as text and the next one reads them again, so that all of this holds
inside the limits of the sheet.

## Key results

- `AddsUp`: two rules that do together what a third does
- `moveRef_moveRef`, `moveName_moveName`: elements that hold a range
- `shiftMerges_shiftMerges`: the list of merged regions
- `insertions_add_up`: all that a sheet refers to by address
-/

namespace SheetTemplate

open Text (natural32? add32_of_le)
open Xml (Element)

/-! ### Distances -/

/-- Distances add up as long as the first leads to a coordinate. -/
theorem CellRef.moved_moved {n : Nat} {first second : Int} (h : 1 ≤ n + first)
    (h' : n + first ≤ (Text.max32 : Int)) :
    moved (moved n first) second = moved n (first + second) := by
  have hfirst : (moved n first : Int) = n + first := by
    have hmax : Text.max32 < Nat.pow 2 32 := by decide
    have hsame : max 1 ((n : Int) + first) = n + first := by omega
    unfold moved
    rw [hsame, Int.natCast_emod, Int.toNat_of_nonneg (by omega)]
    exact Int.emod_eq_of_lt (by omega) (by omega)
  unfold moved at hfirst ⊢
  rw [hfirst, Int.add_assoc]

namespace RangeRef

variable {r : RangeRef} {cols cols' rows rows' : Int}

/-- A range that is moved twice inside the sheet is moved by both distances. -/
theorem offset_offset (h : r.Readable) (hcol : 1 ≤ r.start.col + cols)
    (hcol' : 1 ≤ r.stop.col + cols) (hcols : r.lastCol + cols ≤ maxCols) (hrows : 0 ≤ rows)
    (hrow : r.lastRow + rows ≤ maxRows) :
    (r.offset cols rows).offset cols' rows' = r.offset (cols + cols') (rows + rows') := by
  have hlimits := limits_le_max32
  have hstart := h.start.row_pos
  have hstop := h.stop.row_pos
  unfold lastCol at hcols
  unfold lastRow at hrow
  unfold offset CellRef.offset
  dsimp only
  rw [CellRef.moved_moved hcol (by omega), CellRef.moved_moved hcol' (by omega),
    CellRef.moved_moved (by omega) (by omega), CellRef.moved_moved (by omega) (by omega)]

/-- A region that is moved by nothing stays. -/
theorem offset_zero (h : r.Readable) : r.offset 0 0 = r := by
  have hlimits := limits_le_max32
  have hstay : ∀ {c : CellRef}, c.Readable → c.offset 0 0 = c := by
    intro c hc
    have hcol := hc.col_pos
    have hcol' := hc.col_le
    have hrow := hc.row_pos
    have hrow' := hc.row_le
    exact (CellRef.movedBy_offset c (by omega) (by omega) (by omega) (by omega)).eq_self
  unfold offset
  rw [hstay h.start, hstay h.stop]

end RangeRef

/-- Giving a table a range anew is giving it one once. -/
theorem Table.setRange_setRange (t : Table) (r r' : RangeRef) :
    (t.setRange r).setRange r' = t.setRange r' := by
  have hname : ∀ c : Element, (c.setAttr "ref" r.a1).name = c.name := fun _ => rfl
  have hfilter : (t.setRange r).doc.root.mapChild "autoFilter" (·.setAttr "ref" r'.a1) =
      (t.doc.root.mapChild "autoFilter" (·.setAttr "ref" r'.a1)).setAttr "ref" r.a1 := by
    show ((t.doc.root.mapChild "autoFilter" _).mapChild "autoFilter" _).setAttr "ref" r.a1 = _
    rw [Element.mapChild_mapChild t.doc.root "autoFilter" hname]
    simp only [Element.setAttr_setAttr]
  unfold setRange at hfilter ⊢
  dsimp only at hfilter ⊢
  rw [hfilter, Element.setAttr_setAttr]

namespace Layout

/-! ### Two rules -/

/-- What two rules do to a range one after the other, a third does at once. What the first makes of
the range is read again before the second is asked. -/
structure AddsUp (first second both : RangeRef → Option RangeRef) (r : RangeRef) : Prop where
  stay : first r = none → both r = second r
  move : ∀ r₁, first r = some r₁ → r₁.Readable ∧ (r.start = r.stop → r₁.start = r₁.stop) ∧
    both r = some ((second r₁).getD r₁)

variable {first second both : RangeRef → Option RangeRef}

/-- An element that is moved twice is moved by both rules together. -/
theorem moveRef_moveRef {e : Element} (h : ∀ r, refRange? e = some r → AddsUp first second both r) :
    moveRef second (moveRef first e) = moveRef both e := by
  -- What is no region stays in both; a region that the first step leaves must be left by the rule
  -- too.
  cases hr : refRange? e with
  | none =>
    have hsame (rule : RangeRef → Option RangeRef) : moveRef rule e = e :=
      moveRef_of_none (by simp [hr])
    rw [hsame, hsame, hsame]
  | some r =>
    obtain ⟨hstay, hmove⟩ := h r hr
    cases hfirst : first r with
    | none =>
      have hsame : moveRef first e = e := moveRef_of_none (by simp [hr, hfirst])
      rw [hsame]
      simp [moveRef, hr, hstay hfirst]
    | some r₁ =>
      obtain ⟨hread, -, hboth⟩ := hmove r₁ hfirst
      have hmoved : moveRef first e = e.setAttr "ref" r₁.a1 := by simp [moveRef, hr, hfirst]
      have hrange := refRange?_setAttr e hread
      rw [hmoved]
      cases hsecond : second r₁ with
      | none =>
        rw [moveRef_of_none (by simp [hrange, hsecond])]
        simp [moveRef, hr, hboth, hsecond]
      | some r₂ => simp [moveRef, hrange, hsecond, hr, hboth]

/-- A name that is moved twice is moved by both rules together. -/
theorem moveName_moveName {e : Element}
    (h : ∀ r, nameRange? e = some r → AddsUp first second both r) :
    moveName second (moveName first e) = moveName both e := by
  -- As for regions, with the spelling of the name kept from one step to the next.
  cases hr : nameRange? e with
  | none =>
    have hsame (rule : RangeRef → Option RangeRef) : moveName rule e = e :=
      moveName_of_none (by simp [hr])
    rw [hsame, hsame, hsame]
  | some r =>
    obtain ⟨hstay, hmove⟩ := h r hr
    cases hfirst : first r with
    | none =>
      have hsame : moveName first e = e := moveName_of_none (by simp [hr, hfirst])
      rw [hsame]
      simp [moveName, hr, hstay hfirst]
    | some r₁ =>
      obtain ⟨hread, hsingle, hboth⟩ := hmove r₁ hfirst
      obtain ⟨htext, hrange, hwritten⟩ := nameRange?_moveName hr hfirst hread hsingle
      cases hsecond : second r₁ with
      | none =>
        rw [moveName_of_none (by simp [hrange, hsecond])]
        simp [moveName, hr, hfirst, hboth, hsecond]
      | some r₂ =>
        have htwice : moveName second (moveName first e) =
            (moveName first e).setText (nameText (RangeRef.isWritten e.text) r₂) := by
          unfold moveName nameText at *
          simp only [hrange, hsecond, hwritten, Option.bind_some]
        rw [htwice]
        simp [moveName, hr, hfirst, hboth, hsecond, nameText, Element.setText]

/-! ### Rows -/

namespace RowShift

/-- The same insertion with another number of rows. -/
def withRows (s : RowShift) (rows : Nat) : RowShift := { s with rows }

/-- Whether rows move or stretch the range of a name. -/
def MovesName (s : RowShift) (r : RangeRef) : Prop :=
  s.anchor < r.start.row ∨ s.pushDownPageBreaks = true ∧ s.anchor < r.stop.row ∧
    r.start.sheetName? = some s.sheetName

instance (s : RowShift) (r : RangeRef) : Decidable (s.MovesName r) :=
  inferInstanceAs (Decidable (_ ∨ _))

end RowShift

section

variable (s : RowShift) {b : Nat} {r : RangeRef}

/-- A range that rows have moved down lies below their row still, so that more rows move it on. -/
private theorem offset_rows (hread : r.Readable) (hbelow : s.anchor < r.start.row)
    (hroom : r.lastRow + (s.rows + b) ≤ maxRows) :
    (r.offset 0 s.rows).Readable ∧ (r.start = r.stop →
      (r.offset 0 s.rows).start = (r.offset 0 s.rows).stop) ∧
      s.anchor < (r.offset 0 s.rows).start.row ∧
      (r.offset 0 s.rows).offset 0 b = r.offset 0 (s.rows + b : Nat) := by
  have hcol := hread.start.col_pos
  have hcol' := hread.stop.col_pos
  have hlast := hread.lastCol_le
  have hgone := RangeRef.goneBy_offset hread 0 (s.rows : Nat) (by omega) (by omega) (by omega)
    (by omega)
  have hrow := hgone.row
  refine ⟨hgone.readable, hgone.single, by omega, ?_⟩
  rw [RangeRef.offset_offset hread (by omega) (by omega) (by omega) (by omega) (by omega),
    Int.add_zero, Int.natCast_add]

/-- Ranges that move as a whole add up where rows are inserted. -/
theorem addsUp_moved (hread : r.Readable)
    (hroom : s.anchor < r.start.row → r.lastRow + (s.rows + b) ≤ maxRows) :
    AddsUp s.moved? (s.withRows b).moved? (s.withRows (s.rows + b)).moved? r := by
  unfold RowShift.moved? RowShift.withRows
  by_cases hbelow : s.anchor < r.start.row
  · obtain ⟨hread₁, hsingle, hbelow₁, hboth⟩ := offset_rows s hread hbelow (hroom hbelow)
    refine ⟨by simp [hbelow], fun r₁ hr₁ => ?_⟩
    rw [if_pos hbelow, Option.some.injEq] at hr₁
    subst hr₁
    refine ⟨hread₁, hsingle, ?_⟩
    simp only [hbelow, hbelow₁, ↓reduceIte, Option.getD_some, hboth]
  · exact ⟨by simp [hbelow], by simp [hbelow]⟩

/-- The end of a range that rows have stretched lies below their row still. -/
private theorem stretch_rows (hread : r.Readable) (habove : ¬s.anchor < r.start.row)
    (hbelow : s.anchor < r.stop.row) (hroom : r.lastRow + (s.rows + b) ≤ maxRows) :
    RangeRef.Readable { r with stop := r.stop.offset 0 s.rows } ∧
      s.anchor < (r.stop.offset 0 s.rows).row ∧
      (r.stop.offset 0 s.rows).offset 0 b = r.stop.offset 0 (s.rows + b : Nat) := by
  -- All sums stay within the limits.
  have hlimits := limits_le_max32
  have hlast : r.lastRow = r.stop.row := by
    unfold RangeRef.lastRow
    omega
  have hcol := hread.stop.col_pos
  have hcol' := hread.stop.col_le
  have hmoved : r.stop.MovedBy (r.stop.offset 0 s.rows) 0 s.rows :=
    CellRef.movedBy_offset _ (by omega) (by omega) (by omega) (by omega)
  have hrow := hmoved.row
  refine ⟨⟨hread.start, hmoved.readable hread.stop (by omega) (by omega) (by omega) (by omega),
    hread.colon⟩, by omega, ?_⟩
  unfold CellRef.offset
  dsimp only
  rw [CellRef.moved_moved (by omega) (by omega), CellRef.moved_moved (by omega) (by omega),
    Int.add_zero, Int.natCast_add]

/-- Names add up where rows are inserted, whether they move or are stretched. -/
theorem addsUp_movedName (hread : r.Readable)
    (hroom : s.MovesName r → r.lastRow + (s.rows + b) ≤ maxRows) :
    AddsUp s.movedName? (s.withRows b).movedName? (s.withRows (s.rows + b)).movedName? r := by
  unfold RowShift.movedName? RowShift.withRows
  by_cases hbelow : s.anchor < r.start.row
  · obtain ⟨hread₁, hsingle, hbelow₁, hboth⟩ := offset_rows s hread hbelow (hroom (.inl hbelow))
    refine ⟨by simp [hbelow], fun r₁ hr₁ => ?_⟩
    rw [if_pos hbelow, Option.some.injEq] at hr₁
    subst hr₁
    refine ⟨hread₁, hsingle, ?_⟩
    simp only [hbelow, hbelow₁, ↓reduceIte, Option.getD_some, hboth]
  · by_cases hstretch : s.pushDownPageBreaks = true ∧ s.anchor < r.stop.row ∧
        r.start.sheetName? = some s.sheetName
    · obtain ⟨hread₁, hbelow₁, hboth⟩ := stretch_rows s hread hbelow hstretch.2.1
        (hroom (.inr hstretch))
      obtain ⟨hpush, hstop, hsheet⟩ := hstretch
      refine ⟨by simp [hbelow, hpush, hstop, hsheet], fun r₁ hr₁ => ?_⟩
      rw [if_neg hbelow, if_pos ⟨hpush, hstop, hsheet⟩, Option.some.injEq] at hr₁
      subst hr₁
      refine ⟨hread₁, fun hsingle => ?_, ?_⟩
      · -- A single cell does not lie on both sides of the row.
        exact absurd hstop (hsingle ▸ hbelow)
      · simp only [hbelow, hstop, hbelow₁, hpush, hsheet, and_self, ↓reduceIte, Option.getD_some,
          hboth]
    · exact ⟨by simp [hbelow, hstretch], by simp [hbelow, hstretch]⟩

/-- Rules add up if they do wherever rows are inserted at all. -/
private theorem AddsUp.of_rows {rule : RowShift → RangeRef → Option RangeRef}
    (h : AddsUp (rule s) (rule (s.withRows b)) (rule (s.withRows (s.rows + b))) r) :
    AddsUp (fun r => if s.rows = 0 then none else rule s r)
      (fun r => if b = 0 then none else rule (s.withRows b) r)
      (fun r => if s.rows + b = 0 then none else rule (s.withRows (s.rows + b)) r) r := by
  -- If one of the steps inserts nothing, the other one does all.
  by_cases hrows : s.rows = 0
  · exact ⟨fun _ => by simp only [hrows, Nat.zero_add], by simp [hrows]⟩
  · have hboth : s.rows + b ≠ 0 := by omega
    have hsame : b = 0 → s.withRows (s.rows + b) = s := fun hb => by rw [hb]; rfl
    simp only [hrows, hboth, ↓reduceIte]
    refine ⟨fun hstay => ?_, fun r₁ hr₁ => ?_⟩
    · have hthen := h.stay hstay
      by_cases hb : b = 0
      · rw [hsame hb, hstay, if_pos hb]
      · rw [hthen, if_neg hb]
    · obtain ⟨hread, hsingle, hthen⟩ := h.move r₁ hr₁
      refine ⟨hread, hsingle, ?_⟩
      by_cases hb : b = 0
      · rw [hsame hb, hr₁, if_pos hb, Option.getD_none]
      · rw [hthen, if_neg hb]

/-- Regions and tables add up. -/
theorem addsUp_region (hread : r.Readable)
    (hroom : s.anchor < r.start.row → r.lastRow + (s.rows + b) ≤ maxRows) :
    AddsUp (Move.region? (.down s)) (Move.region? (.down (s.withRows b)))
      (Move.region? (.down (s.withRows (s.rows + b)))) r :=
  .of_rows s (addsUp_moved s hread hroom)

/-- Names add up. -/
theorem addsUp_name (hread : r.Readable)
    (hroom : s.MovesName r → r.lastRow + (s.rows + b) ≤ maxRows) :
    AddsUp (Move.named? (.down s)) (Move.named? (.down (s.withRows b)))
      (Move.named? (.down (s.withRows (s.rows + b)))) r :=
  .of_rows s (addsUp_movedName s hread hroom)

end

/-! ### Tables and page breaks -/

section

variable (s : RowShift) {b : Nat}

/-- A shift treats tables as its move does regions. -/
private theorem shiftTable_eq (t : Table) :
    s.shiftTable t = ((t.range?.bind (Move.region? (.down s))).map t.setRange).getD t := by
  unfold RowShift.shiftTable
  by_cases hrows : s.rows = 0
  · cases t.range? <;> simp [Move.region?, hrows]
  · cases hr : t.range? with
    | none => simp [hrows]
    | some r => cases hmoved : s.moved? r <;> simp [Move.region?, hrows, hmoved]

/-- A table that rows move twice is moved by all of them together. -/
theorem shiftTable_shiftTable {t : Table}
    (hroom : ∀ r ∈ t.range?, s.anchor < r.start.row → r.lastRow + (s.rows + b) ≤ maxRows) :
    (s.withRows b).shiftTable (s.shiftTable t) = (s.withRows (s.rows + b)).shiftTable t := by
  simp only [shiftTable_eq]
  -- A table without a range stays.
  cases hr : t.range? with
  | none => simp [hr]
  | some r =>
    obtain ⟨hstay, hmove⟩ := addsUp_region s (Table.readable_of_range? hr) (hroom r hr)
    rw [Option.bind_some, Option.bind_some]
    cases hfirst : Move.region? (.down s) r with
    | none => simp [hr, hstay hfirst]
    | some r₁ =>
      obtain ⟨hread, -, hboth⟩ := hmove r₁ hfirst
      rw [hboth, Option.map_some, Option.getD_some, Table.range?_setRange t hread]
      cases hsecond : Move.region? (.down (s.withRows b)) r₁ with
      | none => simp [hsecond]
      | some r₂ => simp [hsecond, Table.setRange_setRange]

/-- A page break that rows move twice is moved by all of them together. -/
theorem shiftBreak_shiftBreak {brk : Element}
    (hroom : ∀ id ∈ breakId? brk, s.anchor < id → id + (s.rows + b) ≤ Text.max32) :
    (s.withRows b).shiftBreak (s.shiftBreak brk) = (s.withRows (s.rows + b)).shiftBreak brk := by
  cases hid : breakId? brk with
  | none =>
    have hnone : (brk.attr? "id").bind natural32? = none := hid
    simp [RowShift.shiftBreak, hnone]
  | some id =>
    have hsome : (brk.attr? "id").bind natural32? = some id := hid
    -- The number of the break is written and read again before it moves on.
    by_cases hbelow : s.anchor < id
    · have hmax := hroom id hid hbelow
      have hread : natural32? (toString (id + s.rows)) = some (id + s.rows) := by
        rw [natural32?, Text.toList_toString]
        exact Text.natural?_numeral (by omega)
      have hbelow' : s.anchor < id + s.rows := by omega
      have hfirst := add32_of_le (show id + s.rows ≤ Text.max32 by omega)
      have hsecond := add32_of_le (show id + s.rows + b ≤ Text.max32 by omega)
      have hboth := add32_of_le hmax
      simp only [RowShift.shiftBreak, RowShift.withRows, hsome, hbelow, ↓reduceIte, hfirst, hsecond,
        hboth, Element.attr?_setAttr_self, Option.bind_some, hread, hbelow',
        Element.setAttr_setAttr, Nat.add_assoc]
    · simp [RowShift.shiftBreak, RowShift.withRows, hsome, hbelow]

/-! ### Merged regions -/

/-- The element of a merged region for the region some rows further down. -/
private def copyAt (e : Element) (r : RangeRef) (k : Nat) : Element :=
  e.shallow.setAttr "ref" (r.offset 0 k).a1

variable {e : Element} {r : RangeRef}

/-- The clones of a region on the row are its copies, one for each row. -/
private theorem clones_of_eq (he : refRange? e = some r) (hrow : r.start.row = s.anchor) :
    s.clones e = (List.range' 1 s.rows).map (copyAt e r) := by
  simp only [RowShift.clones, he, hrow, ↓reduceIte]
  rfl

/-- A region on another row has none. -/
private theorem clones_of_ne (hrow : ∀ r ∈ refRange? e, r.start.row ≠ s.anchor) :
    s.clones e = [] := by
  cases he : refRange? e with
  | none => simp only [RowShift.clones, he]
  | some r => simp only [RowShift.clones, he, hrow r he, ↓reduceIte]

/-- A copy lies below the row at which the region begins. -/
private theorem refRange?_copyAt (hread : r.Readable) {k : Nat} (hk : r.lastRow + k ≤ maxRows) :
    refRange? (copyAt e r k) = some (r.offset 0 k) ∧
      (r.offset 0 k).start.row = r.start.row + k := by
  have hcol := hread.start.col_pos
  have hlast := hread.lastCol_le
  have hgone := RangeRef.goneBy_offset hread 0 (k : Nat) (by omega) (by omega) (by omega) (by omega)
  have hrow := hgone.row
  exact ⟨refRange?_setAttr _ hgone.readable, by omega⟩

/-- A copy that is moved down is the copy further down. -/
private theorem moveRef_copyAt (hread : r.Readable) (hrow : r.start.row = s.anchor) {k : Nat}
    (hpos : 0 < k) (hk : r.lastRow + (k + b) ≤ maxRows) :
    moveRef (s.withRows b).moved? (copyAt e r k) = copyAt e r (k + b) := by
  obtain ⟨hcopy, hcopyRow⟩ := refRange?_copyAt (e := e) hread
    (show r.lastRow + k ≤ maxRows by omega)
  have hcol := hread.start.col_pos
  have hcol' := hread.stop.col_pos
  have hlast := hread.lastCol_le
  have hbelow : s.anchor < (r.offset 0 k).start.row := by omega
  -- The copy moves by its own distance, and then by that of the second step.
  have hboth : (r.offset 0 k).offset 0 b = r.offset 0 (k + b : Nat) := by
    rw [RangeRef.offset_offset hread (by omega) (by omega) (by omega) (by omega) (by omega),
      Int.add_zero, Int.natCast_add]
  have hmoved : (s.withRows b).moved? (r.offset 0 k) = some (r.offset 0 (k + b : Nat)) := by
    rw [← hboth]
    exact if_pos hbelow
  unfold moveRef
  rw [hcopy, Option.bind_some, hmoved]
  exact Element.setAttr_setAttr _ _ _ _

/-- Whether a merged region can go down by some rows, if they move or repeat it. -/
def RoomBelow (anchor rows : Nat) (e : Element) : Prop :=
  ∀ r ∈ refRange? e, anchor ≤ r.start.row → r.lastRow + rows ≤ maxRows

instance (anchor rows : Nat) (e : Element) : Decidable (RoomBelow anchor rows e) :=
  inferInstanceAs (Decidable (∀ r ∈ refRange? e, _))

/-- The copies that the first rows make and the others move on, and those that the others make, are
all copies there are. -/
private theorem perm_clones (hroom : RoomBelow s.anchor (s.rows + b) e) :
    ((s.clones e).map (moveRef (s.withRows b).moved?) ++ (s.withRows b).clones e).Perm
      ((s.withRows (s.rows + b)).clones e) := by
  -- A region on another row is not copied by any step.
  by_cases hrow : ∀ r ∈ refRange? e, r.start.row ≠ s.anchor
  · rw [clones_of_ne s hrow, clones_of_ne (s.withRows b) hrow,
      clones_of_ne (s.withRows (s.rows + b)) hrow]
    exact .refl _
  · simp only [not_forall, Decidable.not_not] at hrow
    obtain ⟨r, he, hrow⟩ := hrow
    have hlast := hroom r he (by omega)
    -- The first copies move on below those that the second step makes.
    have hmoved : ((List.range' 1 s.rows).map (copyAt e r)).map (moveRef (s.withRows b).moved?) =
        (List.range' (1 + b) s.rows).map (copyAt e r) := by
      rw [List.map_map, Nat.add_comm 1, ← List.map_add_range', List.map_map]
      refine List.map_congr_left fun k hk => ?_
      have hk := List.mem_range'_1.1 hk
      rw [Function.comp_apply, moveRef_copyAt s (readable_of_refRange? he) hrow (by omega)
        (by omega), Function.comp_apply, Nat.add_comm]
    rw [clones_of_eq s he hrow, clones_of_eq (s.withRows b) he hrow,
      clones_of_eq (s.withRows (s.rows + b)) he hrow, hmoved]
    refine List.perm_append_comm.trans ?_
    show ((List.range' 1 b).map _ ++ (List.range' (1 + b) s.rows).map _).Perm
      ((List.range' 1 (s.rows + b)).map (copyAt e r))
    rw [← List.map_append, Nat.add_comm s.rows, List.range'_append_1]

/-- Copies are not repeated themselves: they lie below the row. -/
private theorem clones_clones (hroom : RoomBelow s.anchor (s.rows + b) e) :
    (s.clones e).flatMap (s.withRows b).clones = [] := by
  refine List.flatMap_eq_nil_iff.2 fun c hc => ?_
  -- A copy is not on the row itself, so that it is not copied again.
  by_cases hrow : ∀ r ∈ refRange? e, r.start.row ≠ s.anchor
  · rw [clones_of_ne s hrow] at hc
    cases hc
  · simp only [not_forall, Decidable.not_not] at hrow
    obtain ⟨r, he, hrow⟩ := hrow
    have hlast := hroom r he (by omega)
    rw [clones_of_eq s he hrow] at hc
    obtain ⟨k, hk, rfl⟩ := List.mem_map.1 hc
    have hk := List.mem_range'_1.1 hk
    obtain ⟨hcopy, hcopyRow⟩ := refRange?_copyAt (e := e) (readable_of_refRange? he)
      (show r.lastRow + k ≤ maxRows by omega)
    refine clones_of_ne (s.withRows b) fun r' hr' => ?_
    obtain rfl : r.offset 0 k = r' := Option.some.inj (hcopy.symm.trans hr')
    show _ ≠ s.anchor
    omega

/-- Rows that move a region do not bring it to the row at which others are repeated. -/
private theorem clones_moveRef (hroom : RoomBelow s.anchor (s.rows + b) e) :
    (s.withRows b).clones (moveRef s.moved? e) = (s.withRows b).clones e := by
  cases he : refRange? e with
  | none => rw [moveRef_of_none (by rw [he, Option.bind_none])]
  | some r =>
    -- A region that moves is below the row before and after, so that it has no copies.
    by_cases hbelow : s.anchor < r.start.row
    · have hread := readable_of_refRange? he
      obtain ⟨hread₁, -, hbelow₁, -⟩ := offset_rows s hread hbelow (hroom r he (by omega))
      have hmoved : refRange? (moveRef s.moved? e) = some (r.offset 0 s.rows) := by
        have hrule : s.moved? r = some (r.offset 0 s.rows) := if_pos hbelow
        unfold moveRef
        rw [he, Option.bind_some, hrule]
        exact refRange?_setAttr e hread₁
      rw [clones_of_ne (s.withRows b) (e := e), clones_of_ne (s.withRows b)]
      · intro r' hr'
        obtain rfl : r.offset 0 s.rows = r' := Option.some.inj (hmoved.symm.trans hr')
        exact Nat.ne_of_gt hbelow₁
      · intro r' hr'
        obtain rfl : r = r' := Option.some.inj (he.symm.trans hr')
        exact Nat.ne_of_gt hbelow
    · rw [moveRef_of_none]
      rw [he, Option.bind_some]
      exact if_neg hbelow

/-- The copies of a list of regions, made by rows inserted in two goes, and by all of them. -/
private theorem perm_flatMap_clones {regions : List Element}
    (hroom : ∀ e ∈ regions, RoomBelow s.anchor (s.rows + b) e) :
    ((regions.flatMap s.clones).map (moveRef (s.withRows b).moved?) ++
        (regions.map (moveRef s.moved?) ++ regions.flatMap s.clones).flatMap
          (s.withRows b).clones).Perm
      (regions.flatMap (s.withRows (s.rows + b)).clones) := by
  have hmoved : (regions.map (moveRef s.moved?)).flatMap (s.withRows b).clones =
      regions.flatMap (s.withRows b).clones := by
    rw [List.flatMap_map]
    exact List.flatMap_congr fun e he => clones_moveRef s (hroom e he)
  have hnone : (regions.flatMap s.clones).flatMap (s.withRows b).clones = [] := by
    rw [List.flatMap_assoc]
    exact List.flatMap_eq_nil_iff.2 fun e he => clones_clones s (hroom e he)
  rw [List.flatMap_append, hmoved, hnone, List.append_nil, List.map_flatMap]
  exact (List.flatMap_append_perm regions _ _).trans
    (List.Perm.flatMap_left regions fun e he => perm_clones s (hroom e he))

/-- Two lists of merged regions that begin with the same ones and differ by the order of the others,
which come last. -/
def AlikeButOrder (moved : List Element) (e e' : Element) : Prop :=
  ∃ (rest : Element) (copies copies' : List Element), copies.Perm copies' ∧
    rest.named "mergeCell" = moved ∧ e = rest.pushAll copies ∧ e' = rest.pushAll copies'

/-- The list of regions: the moved ones, their number, and the copies behind them. -/
private theorem shiftMerges_eq (merges : Element) :
    s.shiftMerges merges =
      ((merges.mapNamed "mergeCell" (moveRef s.moved?)).setAttr "count"
        (toString ((merges.named "mergeCell").length +
          ((merges.named "mergeCell").flatMap s.clones).length))).pushAll
            ((merges.named "mergeCell").flatMap s.clones) := by
  have hcount : (merges.named "mergeCell").length +
      ((merges.named "mergeCell").flatMap s.clones).length =
        (s.shiftMerges merges).countNamed "mergeCell" := by
    rw [Element.countNamed, named_shiftMerges, List.length_append, List.length_map]
  rw [hcount]
  rfl

/-- Merged regions that rows move and repeat twice are moved and repeated by all of them together,
but for the order of the copies. -/
theorem shiftMerges_shiftMerges {merges : Element}
    (hroom : ∀ e ∈ merges.named "mergeCell", RoomBelow s.anchor (s.rows + b) e) :
    AlikeButOrder ((merges.named "mergeCell").map (moveRef (s.withRows (s.rows + b)).moved?))
      ((s.withRows b).shiftMerges (s.shiftMerges merges))
      ((s.withRows (s.rows + b)).shiftMerges merges) := by
  have hname : ∀ c : Element, (moveRef s.moved? c).name = c.name := name_moveRef _
  -- What has moved moves on.
  have hmoved : ∀ e ∈ merges.named "mergeCell",
      moveRef (s.withRows b).moved? (moveRef s.moved? e) =
        moveRef (s.withRows (s.rows + b)).moved? e := fun e he =>
    moveRef_moveRef fun r hr => addsUp_moved s (readable_of_refRange? hr) fun hbelow =>
      hroom e he r hr (Nat.le_of_lt hbelow)
  have hboth : (merges.mapNamed "mergeCell" (moveRef s.moved?)).mapNamed "mergeCell"
      (moveRef (s.withRows b).moved?) =
        merges.mapNamed "mergeCell" (moveRef (s.withRows (s.rows + b)).moved?) := by
    rw [Element.mapNamed_mapNamed _ _ hname]
    exact Element.mapNamed_congr _ _ fun e he hmerge =>
      hmoved e (List.mem_filter.2 ⟨he, by simpa using hmerge⟩)
  -- So do the copies, which are regions themselves.
  have hcopies : ((merges.named "mergeCell").flatMap s.clones).map
      (fun c => if c.name == "mergeCell" then moveRef (s.withRows b).moved? c else c) =
      ((merges.named "mergeCell").flatMap s.clones).map (moveRef (s.withRows b).moved?) :=
    List.map_congr_left fun c hc => by rw [if_pos (by simp [name_of_mem_flatMap_clones hc])]
  have hperm := perm_flatMap_clones s hroom
  refine ⟨_, _, _, hperm, ?_, ?_, shiftMerges_eq (s.withRows (s.rows + b)) merges⟩
  · rw [Element.named_setAttr, Element.named_mapNamed merges "mergeCell" (name_moveRef _)]
  -- Both count the regions and all their copies.
  have hlength := hperm.length_eq
  rw [List.length_append, List.length_map] at hlength
  rw [shiftMerges_eq (s.withRows b), named_shiftMerges, List.length_append, List.length_map,
    Nat.add_assoc, hlength, shiftMerges_eq s]
  rw [Element.mapNamed_pushAll, hcopies, Element.mapNamed_setAttr, hboth, Element.setAttr_pushAll,
    Element.setAttr_setAttr, Element.pushAll_pushAll]

/-! ### Sheets -/

/-- Page breaks and regions are different children of the sheet. -/
theorem shiftBreaks_mapChild {sheet : Element} {f : Element → Element}
    (hf : ∀ c : Element, (f c).name = c.name) :
    s.shiftBreaks (sheet.mapChild "mergeCells" f) =
      (s.shiftBreaks sheet).mapChild "mergeCells" f := by
  have hname : ∀ c : Element, (c.mapNamed "brk" s.shiftBreak).name = c.name := fun _ => rfl
  unfold RowShift.shiftBreaks
  split
  · exact Element.mapChild_comm sheet (by decide) hf hname
  · rfl

/-- The page breaks of a sheet that rows move twice are moved by all of them together. -/
theorem shiftBreaks_shiftBreaks {sheet : Element}
    (hroom : s.pushDownPageBreaks = true → ∀ brk ∈ pageBreaks sheet, ∀ id ∈ breakId? brk,
      s.anchor < id → id + (s.rows + b) ≤ Text.max32) :
    (s.withRows b).shiftBreaks (s.shiftBreaks sheet) =
      (s.withRows (s.rows + b)).shiftBreaks sheet := by
  unfold RowShift.shiftBreaks
  -- Without the option no break is moved.
  by_cases hpush : s.pushDownPageBreaks = true
  · have hpush' : ∀ rows, (s.withRows rows).pushDownPageBreaks = true := fun _ => hpush
    have hname : ∀ c : Element, (c.mapNamed "brk" s.shiftBreak).name = c.name := fun _ => rfl
    rw [if_pos hpush, if_pos (hpush' b), if_pos (hpush' _), Element.mapChild_mapChild _ _ hname]
    refine Element.mapChild_congr _ _ fun breaks hbreaks => ?_
    rw [Element.mapNamed_mapNamed _ _ (name_shiftBreak s)]
    refine Element.mapNamed_congr _ _ fun brk hbrk hbreak => shiftBreak_shiftBreak s ?_
    refine hroom hpush brk ?_
    rw [pageBreaks, hbreaks]
    exact List.mem_filter.2 ⟨hbrk, by simpa using hbreak⟩
  · have hpush' : ∀ rows, ¬(s.withRows rows).pushDownPageBreaks = true := fun _ => hpush
    rw [if_neg hpush, if_neg (hpush' b), if_neg (hpush' _)]

end

/-- Two sheets that have the same merged regions, once they are moved, and differ by the order of
the copies that follow. -/
structure SameButOrder (moved : List Element) (sheet sheet' : Element) : Prop where
  regions : ∃ copies copies' : List Element, copies.Perm copies' ∧
    mergeCells sheet = moved ++ copies ∧ mergeCells sheet' = moved ++ copies'
  count : (sheet.child? "mergeCells").bind (·.attr? "count") =
    (sheet'.child? "mergeCells").bind (·.attr? "count")
  breaks : pageBreaks sheet = pageBreaks sheet'
  others : sheet.removeNamed "mergeCells" = sheet'.removeNamed "mergeCells"

/-- Merged regions are moved, and copies come last. -/
private theorem mergeCells_shiftSheet (s : RowShift) (sheet : Element) :
    mergeCells (s.shiftSheet sheet) = stepMerges (mergeCells sheet) (.down s) :=
  @mergeCells_eq_foldl sheet _ [.down s]
    ((child?_shiftSheet s sheet (by decide)).trans (if_pos rfl))

theorem SameButOrder.refl (s : RowShift) (sheet : Element) :
    SameButOrder ((mergeCells sheet).map (moveRef (Move.region? (.down s)))) (s.shiftSheet sheet)
      (s.shiftSheet sheet) :=
  ⟨⟨_, _, .refl _, mergeCells_shiftSheet s sheet, mergeCells_shiftSheet s sheet⟩, rfl, rfl, rfl⟩

/-- Two lists of regions that are alike but for the order may stand in the same sheet. -/
private theorem sameButOrder_mapChild {sheet : Element} {f g : Element → Element}
    {rule : RangeRef → Option RangeRef}
    (hf : ∀ c : Element, (f c).name = c.name) (hg : ∀ c : Element, (g c).name = c.name)
    (h : ∀ c, sheet.child? "mergeCells" = some c →
      AlikeButOrder ((c.named "mergeCell").map (moveRef rule)) (f c) (g c)) :
    SameButOrder ((mergeCells sheet).map (moveRef rule)) (sheet.mapChild "mergeCells" f)
      (sheet.mapChild "mergeCells" g) where
  regions := by
    unfold mergeCells
    rw [Element.child?_mapChild_self _ _ hf, Element.child?_mapChild_self _ _ hg]
    cases hc : sheet.child? "mergeCells" with
    | none => exact ⟨[], [], .refl _, rfl, rfl⟩
    | some c =>
      obtain ⟨rest, copies, copies', hperm, hmoved, hfc, hgc⟩ := h c hc
      simp only [Option.map_some, hfc, hgc, ← hmoved]
      exact ⟨_, _, hperm.filter _, Element.named_pushAll .., Element.named_pushAll ..⟩
  count := by
    rw [Element.child?_mapChild_self _ _ hf, Element.child?_mapChild_self _ _ hg]
    cases hc : sheet.child? "mergeCells" with
    | none => rfl
    | some c =>
      obtain ⟨rest, copies, copies', -, -, hfc, hgc⟩ := h c hc
      rw [Option.map_some, Option.map_some, hfc, hgc]
      rfl
  breaks := by
    unfold pageBreaks
    rw [Element.child?_mapChild_of_ne _ hf (by decide),
      Element.child?_mapChild_of_ne _ hg (by decide)]
  others := by
    rw [Element.removeNamed_mapChild _ _ hf, Element.removeNamed_mapChild _ _ hg]

section

variable (s : RowShift) (b : Nat)

/-- What rows do to a sheet in two goes they do at once. -/
theorem shiftSheet_shiftSheet {sheet : Element}
    (hregions : ∀ e ∈ mergeCells sheet, RoomBelow s.anchor (s.rows + b) e)
    (hbreaks : s.pushDownPageBreaks = true → ∀ brk ∈ pageBreaks sheet, ∀ id ∈ breakId? brk,
      s.anchor < id → id + (s.rows + b) ≤ Text.max32) :
    SameButOrder ((mergeCells sheet).map (moveRef (Move.region? (.down (s.withRows (s.rows + b))))))
      ((s.withRows b).shiftSheet (s.shiftSheet sheet))
      ((s.withRows (s.rows + b)).shiftSheet sheet) := by
  -- A step that inserts no rows leaves the sheet as it is.
  by_cases hrows : s.rows = 0
  · have hnone : s.shiftSheet sheet = sheet := if_pos hrows
    rw [hnone, hrows, Nat.zero_add]
    exact .refl _ _
  by_cases hb : b = 0
  · subst hb
    have hnone : (s.withRows 0).shiftSheet (s.shiftSheet sheet) = s.shiftSheet sheet := if_pos rfl
    rw [hnone]
    exact .refl _ _
  have hname : ∀ (s : RowShift) (c : Element), (s.shiftMerges c).name = c.name := fun _ _ => rfl
  -- Both sides write the breaks first, and then the regions, once or twice.
  have honce : (s.withRows (s.rows + b)).shiftSheet sheet =
      ((s.withRows (s.rows + b)).shiftBreaks sheet).mapChild "mergeCells"
        (s.withRows (s.rows + b)).shiftMerges := by
    rw [← shiftBreaks_mapChild _ (hname _)]
    exact if_neg (show s.rows + b ≠ 0 by omega)
  have htwice : (s.withRows b).shiftSheet (s.shiftSheet sheet) =
      ((s.withRows (s.rows + b)).shiftBreaks sheet).mapChild "mergeCells" fun c =>
        (s.withRows b).shiftMerges (s.shiftMerges c) := by
    have hfirst : s.shiftSheet sheet =
        (s.shiftBreaks sheet).mapChild "mergeCells" s.shiftMerges := by
      rw [← shiftBreaks_mapChild _ (hname _)]
      exact if_neg hrows
    have hsecond : ∀ sheet, (s.withRows b).shiftSheet sheet =
        ((s.withRows b).shiftBreaks sheet).mapChild "mergeCells" (s.withRows b).shiftMerges := by
      intro sheet
      rw [← shiftBreaks_mapChild _ (hname _)]
      exact if_neg hb
    rw [hfirst, hsecond, shiftBreaks_mapChild _ (hname _), shiftBreaks_shiftBreaks s hbreaks,
      Element.mapChild_mapChild _ _ (hname _)]
  -- The breaks leave the regions alone, so the conditions are those of the sheet itself.
  have hsame : ((s.withRows (s.rows + b)).shiftBreaks sheet).child? "mergeCells" =
      sheet.child? "mergeCells" := by
    have hbrk : ∀ c : Element,
        (c.mapNamed "brk" (s.withRows (s.rows + b)).shiftBreak).name = c.name := fun _ => rfl
    unfold RowShift.shiftBreaks
    split
    · exact Element.child?_mapChild_of_ne sheet hbrk (by decide)
    · rfl
  have hregionsSame : mergeCells ((s.withRows (s.rows + b)).shiftBreaks sheet) =
      mergeCells sheet := by
    rw [mergeCells, hsame]
    rfl
  have hrule : Move.region? (.down (s.withRows (s.rows + b))) =
      (s.withRows (s.rows + b)).moved? :=
    funext fun r => if_neg (show s.rows + b ≠ 0 by omega)
  rw [honce, htwice, hrule, ← hregionsSame]
  refine sameButOrder_mapChild (fun c => rfl) (hname _) fun c hc => ?_
  refine shiftMerges_shiftMerges s fun e he => hregions e ?_
  rw [← hregionsSame, mergeCells, hc]
  exact he

/-- What rows do to a name in two goes they do at once. -/
theorem shiftName_shiftName {name : Element}
    (hroom : ∀ r ∈ nameRange? name, s.MovesName r → r.lastRow + (s.rows + b) ≤ maxRows) :
    (s.withRows b).shiftName (s.shiftName name) = (s.withRows (s.rows + b)).shiftName name := by
  rw [RowShift.shiftName_eq, RowShift.shiftName_eq, RowShift.shiftName_eq]
  exact moveName_moveName fun r hr =>
    addsUp_name s (RangeRef.readable_of_parse? hr) (hroom r hr)

end

/-! ### Columns -/

section

variable {anchor : CellRef} {a : Nat} {r : RangeRef}

/-- A range that columns have moved stands right of their cell still, so that more columns, or
fewer, move it from there. -/
private theorem offset_cols (hread : r.Readable) (hrow : r.start.row = anchor.row)
    (hright : anchor.col < r.start.col) (hroom : r.lastCol + a ≤ maxCols) :
    (r.offset a 0).Readable ∧
      (r.start = r.stop → (r.offset a 0).start = (r.offset a 0).stop) ∧
      ∀ cols : Int, (movedRight? anchor cols (r.offset a 0)).getD (r.offset a 0) =
        r.offset (a + cols) 0 := by
  have hcol' := hread.stop.col_pos
  have hlast := hread.lastRow_le
  have hgone := RangeRef.goneBy_offset hread (a : Int) 0 (by omega) (by omega) (by omega) (by omega)
  have hgoneRow := hgone.row
  have hgoneCol := hgone.col
  refine ⟨hgone.readable, hgone.single, fun cols => ?_⟩
  unfold movedRight?
  by_cases hcols : cols = 0
  · rw [if_neg fun hthen => hthen.1 hcols, hcols, Int.add_zero, Option.getD_none]
  · rw [if_pos ⟨hcols, by omega, by omega⟩, Option.getD_some,
      RangeRef.offset_offset hread (by omega) (by omega) (by omega) (by omega) (by omega),
      Int.add_zero]

/-- Whether there is room for columns that are inserted at a cell where they move a range. -/
def RoomRight (anchor : CellRef) (cols : Nat) (r : RangeRef) : Prop :=
  r.start.row = anchor.row → anchor.col < r.start.col → r.lastCol + cols ≤ maxCols

instance (anchor : CellRef) (cols : Nat) (r : RangeRef) : Decidable (RoomRight anchor cols r) :=
  inferInstanceAs (Decidable (_ → _ → _))

/-- Columns that are inserted at one cell add up. -/
theorem addsUp_movedRight {b : Nat} (hread : r.Readable) (hroom : RoomRight anchor (a + b) r) :
    AddsUp (movedRight? anchor a) (movedRight? anchor b) (movedRight? anchor (a + b : Nat)) r := by
  -- Only what stands right of the anchor on its row moves.
  by_cases hwhere : r.start.row = anchor.row ∧ anchor.col < r.start.col
  · have hlast := hroom hwhere.1 hwhere.2
    obtain ⟨hread₁, hsingle, hthen⟩ := offset_cols hread hwhere.1 hwhere.2
      (show r.lastCol + a ≤ maxCols by omega)
    by_cases ha : a = 0
    · exact ⟨fun _ => by rw [ha, Nat.zero_add], by simp [movedRight?, ha]⟩
    · have hfirst : movedRight? anchor a r = some (r.offset a 0) := if_pos ⟨by omega, hwhere⟩
      have hboth : movedRight? anchor (a + b : Nat) r = some (r.offset (a + b : Nat) 0) :=
        if_pos ⟨by omega, hwhere⟩
      refine ⟨by simp [hfirst], fun r₁ hr₁ => ?_⟩
      obtain rfl := Option.some.inj (hfirst.symm.trans hr₁)
      exact ⟨hread₁, hsingle, by rw [hboth, hthen, Int.natCast_add]⟩
  · exact ⟨by simp [movedRight?, hwhere], by simp [movedRight?, hwhere]⟩

/-- The rule that gives a range what it is already, where another one moves it. -/
def restored? (rule : RangeRef → Option RangeRef) (r : RangeRef) : Option RangeRef :=
  (rule r).map fun _ => r

/-- Columns that are inserted at a cell and taken away again leave every range what it was. -/
theorem addsUp_restored (hread : r.Readable) (hroom : RoomRight anchor a r) :
    AddsUp (movedRight? anchor a) (movedRight? anchor (-a)) (restored? (movedRight? anchor a))
      r := by
  unfold restored?
  -- A region that has moved is still right of the anchor, so that it moves back.
  by_cases hmoves : (a : Int) ≠ 0 ∧ r.start.row = anchor.row ∧ anchor.col < r.start.col
  · obtain ⟨hread₁, hsingle, hthen⟩ := offset_cols hread hmoves.2.1 hmoves.2.2
      (hroom hmoves.2.1 hmoves.2.2)
    have hfirst : movedRight? anchor a r = some (r.offset a 0) := if_pos hmoves
    refine ⟨by simp [hfirst], fun r₁ hr₁ => ?_⟩
    obtain rfl := Option.some.inj (hfirst.symm.trans hr₁)
    refine ⟨hread₁, hsingle, ?_⟩
    rw [hfirst, hthen, Int.add_right_neg, RangeRef.offset_zero hread]
    rfl
  · have hfirst : movedRight? anchor a r = none := if_neg hmoves
    have hsecond : movedRight? anchor (-a) r = none := if_neg (by omega)
    exact ⟨by simp [hfirst, hsecond], by simp [hfirst]⟩

/-- An element that is restored has the range that it had. -/
theorem refRange?_restored (rule : RangeRef → Option RangeRef) (e : Element) :
    refRange? (moveRef (restored? rule) e) = refRange? e := by
  cases hr : refRange? e with
  | none => rw [moveRef_of_none (by rw [hr, Option.bind_none]), hr]
  | some r =>
    cases hrule : rule r with
    | none => rw [moveRef_of_none (by rw [hr, Option.bind_some, restored?, hrule]; rfl), hr]
    | some r₁ =>
      unfold moveRef
      rw [hr, Option.bind_some, restored?, hrule, Option.map_some]
      exact refRange?_setAttr e (readable_of_refRange? hr)

/-- What has been moved and restored is the range as it was. -/
theorem nameRange?_restored (rule : RangeRef → Option RangeRef) (name : Element) :
    nameRange? (moveName (restored? rule) name) = nameRange? name := by
  cases hr : nameRange? name with
  | none => rw [moveName_of_none (by rw [hr, Option.bind_none]), hr]
  | some r =>
    cases hrule : rule r with
    | none => rw [moveName_of_none (by rw [hr, Option.bind_some, restored?, hrule]; rfl), hr]
    | some r₁ =>
      have hrestored : restored? rule r = some r := by rw [restored?, hrule, Option.map_some]
      exact (nameRange?_moveName hr hrestored (RangeRef.readable_of_parse? hr) id).2.1

/-- What columns do to a sheet in two goes they do at once. -/
theorem shiftMergesRight_shiftMergesRight {sheet : Element} {b : Nat}
    (hroom : ∀ e ∈ mergeCells sheet, ∀ r ∈ refRange? e, RoomRight anchor (a + b) r) :
    shiftMergesRight anchor b (shiftMergesRight anchor a sheet) =
      shiftMergesRight anchor (a + b : Nat) sheet := by
  have hname : ∀ c : Element,
      (c.mapNamed "mergeCell" (moveRef (movedRight? anchor a))).name = c.name := fun _ => rfl
  unfold shiftMergesRight
  rw [Element.mapChild_mapChild _ _ hname]
  refine Element.mapChild_congr _ _ fun merges hmerges => ?_
  rw [Element.mapNamed_mapNamed _ _ (name_moveRef _)]
  refine Element.mapNamed_congr _ _ fun e he hmerge => moveRef_moveRef fun r hr => ?_
  refine addsUp_movedRight (readable_of_refRange? hr) (hroom e ?_ r hr)
  rw [mergeCells, hmerges]
  exact List.mem_filter.2 ⟨he, by simpa using hmerge⟩

/-- Columns that come in move regions and copy none. -/
theorem mergeCells_shiftMergesRight (anchor : CellRef) (cols : Int) (sheet : Element) :
    mergeCells (shiftMergesRight anchor cols sheet) =
      (mergeCells sheet).map (moveRef (movedRight? anchor cols)) := by
  have hname : ∀ c : Element,
      (c.mapNamed "mergeCell" (moveRef (movedRight? anchor cols))).name = c.name := fun _ => rfl
  unfold mergeCells shiftMergesRight
  rw [Element.child?_mapChild_self _ _ hname]
  cases sheet.child? "mergeCells" with
  | none => rfl
  | some merges => exact Element.named_mapNamed merges "mergeCell" (name_moveRef _)

/-- Columns that are inserted at a cell and taken away again leave every merged region where it
was. -/
theorem regions_restored {sheet : Element}
    (hroom : ∀ e ∈ mergeCells sheet, ∀ r ∈ refRange? e, RoomRight anchor a r) :
    (mergeCells (shiftMergesRight anchor (-a) (shiftMergesRight anchor a sheet))).map refRange? =
      (mergeCells sheet).map refRange? := by
  rw [mergeCells_shiftMergesRight, mergeCells_shiftMergesRight, List.map_map, List.map_map]
  refine List.map_congr_left fun e he => ?_
  have hboth : moveRef (movedRight? anchor (-a)) (moveRef (movedRight? anchor a) e) =
      moveRef (restored? (movedRight? anchor a)) e :=
    moveRef_moveRef fun r hr => addsUp_restored (readable_of_refRange? hr) (hroom e he r hr)
  simp only [Function.comp_apply, hboth, refRange?_restored]

/-- What columns do to a name in two goes they do at once. -/
theorem shiftNameRight_shiftNameRight {name : Element} {b : Nat}
    (hroom : ∀ r ∈ nameRange? name, RoomRight anchor (a + b) r) :
    shiftNameRight anchor b (shiftNameRight anchor a name) =
      shiftNameRight anchor (a + b : Nat) name := by
  unfold shiftNameRight
  exact moveName_moveName fun r hr =>
    addsUp_movedRight (RangeRef.readable_of_parse? hr) (hroom r hr)

/-- Columns that are inserted at a cell and taken away again leave every name where it was. -/
theorem name_restored {name : Element} (hroom : ∀ r ∈ nameRange? name, RoomRight anchor a r) :
    nameRange? (shiftNameRight anchor (-a) (shiftNameRight anchor a name)) = nameRange? name := by
  have hboth : moveName (movedRight? anchor (-a)) (moveName (movedRight? anchor a) name) =
      moveName (restored? (movedRight? anchor a)) name :=
    moveName_moveName fun r hr =>
      addsUp_restored (RangeRef.readable_of_parse? hr) (hroom r hr)
  unfold shiftNameRight
  rw [hboth, nameRange?_restored]

end

/-! ### All that a sheet refers to -/

/-- Whether there is room below for what rows move, stretch or repeat. -/
structure RowShift.HasRoom (s : RowShift) (sheet : Element) (tables : List Table)
    (names : List Element) : Prop where
  regions : ∀ e ∈ mergeCells sheet, RoomBelow s.anchor s.rows e
  breaks : s.pushDownPageBreaks = true → ∀ brk ∈ pageBreaks sheet, ∀ id ∈ breakId? brk,
    s.anchor < id → id + s.rows ≤ Text.max32
  tables : ∀ t ∈ tables, ∀ r ∈ t.range?, s.anchor < r.start.row → r.lastRow + s.rows ≤ maxRows
  names : ∀ name ∈ names, ∀ r ∈ nameRange? name, s.MovesName r → r.lastRow + s.rows ≤ maxRows

/-- Whether there is room for columns on their row. -/
structure HasRoomRight (anchor : CellRef) (cols : Nat) (sheet : Element) (names : List Element) :
    Prop where
  regions : ∀ e ∈ mergeCells sheet, ∀ r ∈ refRange? e, RoomRight anchor cols r
  names : ∀ name ∈ names, ∀ r ∈ nameRange? name, RoomRight anchor cols r

/-- Rows inserted below a row add up with more rows inserted there, and columns inserted at a cell
with more columns. Columns that are taken away again leave all regions and names where they
were. -/
theorem insertions_add_up (sheet : Element) (tables : List Table) (names : List Element) :
    (∀ (s : RowShift) (b : Nat), (s.withRows (s.rows + b)).HasRoom sheet tables names →
      SameButOrder
          ((mergeCells sheet).map (moveRef (Move.region? (.down (s.withRows (s.rows + b))))))
          ((s.withRows b).shiftSheet (s.shiftSheet sheet))
          ((s.withRows (s.rows + b)).shiftSheet sheet) ∧
        (tables.map s.shiftTable).map (s.withRows b).shiftTable =
          tables.map (s.withRows (s.rows + b)).shiftTable ∧
        (names.map s.shiftName).map (s.withRows b).shiftName =
          names.map (s.withRows (s.rows + b)).shiftName) ∧
    (∀ (anchor : CellRef) (a b : Nat), HasRoomRight anchor (a + b) sheet names →
      shiftMergesRight anchor b (shiftMergesRight anchor a sheet) =
          shiftMergesRight anchor (a + b : Nat) sheet ∧
        (names.map (shiftNameRight anchor a)).map (shiftNameRight anchor b) =
          names.map (shiftNameRight anchor (a + b : Nat))) ∧
    (∀ (anchor : CellRef) (a : Nat), HasRoomRight anchor a sheet names →
      (mergeCells (shiftMergesRight anchor (-a) (shiftMergesRight anchor a sheet))).map refRange? =
          (mergeCells sheet).map refRange? ∧
        ((names.map (shiftNameRight anchor a)).map (shiftNameRight anchor (-a))).map nameRange? =
          names.map nameRange?) := by
  -- Rows below rows, then columns beside columns, then columns taken back.
  refine ⟨fun s b hroom => ⟨?_, ?_, ?_⟩, fun anchor a b hroom => ⟨?_, ?_⟩,
    fun anchor a hroom => ⟨regions_restored hroom.regions, ?_⟩⟩
  · exact shiftSheet_shiftSheet s b hroom.regions hroom.breaks
  · rw [List.map_map]
    exact List.map_congr_left fun t ht => shiftTable_shiftTable s (hroom.tables t ht)
  · rw [List.map_map]
    exact List.map_congr_left fun name hname => shiftName_shiftName s b (hroom.names name hname)
  · exact shiftMergesRight_shiftMergesRight hroom.regions
  · rw [List.map_map]
    refine List.map_congr_left fun name hname => ?_
    rw [Function.comp_apply, shiftNameRight_shiftNameRight (hroom.names name hname)]
  · rw [List.map_map, List.map_map]
    refine List.map_congr_left fun name hname => ?_
    rw [Function.comp_apply, Function.comp_apply, name_restored (hroom.names name hname)]

/-- A sheet with a merged region on row 2 and one further down, and a page break. -/
private def mergedSheet : Element :=
  .ofChildren "worksheet" [] [
    .ofChildren "mergeCells" [("count", "2")] [
      .ofChildren "mergeCell" [("ref", "A2:B2")] [], .ofChildren "mergeCell" [("ref", "C4:D4")] []],
    .ofChildren "rowBreaks" [] [.ofChildren "brk" [("id", "3")] []]]

/-- A table below row 2. -/
private def lowTable : Table where
  path := "table1.xml"
  doc := { root := .ofChildren "table" [("ref", "A6:B8")] [] }

/-- A row inserted below row 2. -/
private def insertedRow : RowShift where
  anchor := 2
  rows := 1
  pushDownPageBreaks := true
  sheetName := "Plan"

/-- One row and another one below row 2: the copies come in another order than if both are inserted
at once. The print area is stretched, and a column at cell A4 comes and goes. -/
theorem insertions_add_up_sample :
    SameButOrder
        ((mergeCells mergedSheet).map (moveRef (Move.region? (.down (insertedRow.withRows 2)))))
        ((insertedRow.withRows 1).shiftSheet (insertedRow.shiftSheet mergedSheet))
        ((insertedRow.withRows 2).shiftSheet mergedSheet) ∧
      ([lowTable].map insertedRow.shiftTable).map (insertedRow.withRows 1).shiftTable =
        [lowTable].map (insertedRow.withRows 2).shiftTable ∧
      ([Element.ofText "definedName" "Plan!$A$1:$B$8"].map insertedRow.shiftName).map
          (insertedRow.withRows 1).shiftName =
        [Element.ofText "definedName" "Plan!$A$1:$B$10"] ∧
      (mergeCells (shiftMergesRight { col := 1, row := 4 } (-1)
        (shiftMergesRight { col := 1, row := 4 } 1 mergedSheet))).map refRange? =
          (mergeCells mergedSheet).map refRange? ∧
      mergedRegions ((insertedRow.withRows 1).shiftSheet (insertedRow.shiftSheet mergedSheet)) ≠
        mergedRegions ((insertedRow.withRows 2).shiftSheet mergedSheet) := by
  obtain ⟨hrows, -, hrestored⟩ := insertions_add_up mergedSheet [lowTable]
    [Element.ofText "definedName" "Plan!$A$1:$B$8"]
  obtain ⟨hsheet, htables, hnames⟩ := hrows insertedRow 1
    ⟨by decide +kernel, by decide +kernel, by decide +kernel, by decide +kernel⟩
  -- The two lists of regions differ in their order, so that the sheets are not equal.
  refine ⟨hsheet, htables, ?_, ?_, by decide +kernel⟩
  · refine hnames.trans ?_
    decide +kernel
  · exact (hrestored { col := 1, row := 4 } 1 ⟨by decide +kernel, by decide +kernel⟩).1

end Layout

end SheetTemplate
