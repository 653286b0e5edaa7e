import SheetTemplate.Layout.Columns
import SheetTemplate.Layout.Rows
import SheetTemplate.Proofs.ElementEdits
import SheetTemplate.Proofs.ReferenceRoundTrip

/-!
# Moving what refers to cells, step by step

A pass moves merged regions and defined names many times, and every time reads what it wrote before.
`Move` is one such step. `Follows` says where a list of rules takes a range, provided that the range
reads back after each of them; the elements that hold the range then follow it.

## Key results

- `refRange?_of_follows`: a region moves as its range does
- `nameRange?_of_follows`: so does a name, and it stays a single reference if it was one
- `named_merges`: what one step does to the list of merged regions
-/

namespace SheetTemplate

/-! ### Distances -/

namespace CellRef

/-- The second reference is the first some columns further right and some rows further down. -/
structure MovedBy (c c' : CellRef) (cols rows : Int) : Prop where
  sheet : c'.sheet = c.sheet
  colFixed : c'.colFixed = c.colFixed
  rowFixed : c'.rowFixed = c.rowFixed
  col : (c'.col : Int) = c.col + cols
  row : (c'.row : Int) = c.row + rows

theorem MovedBy.refl (c : CellRef) : c.MovedBy c 0 0 := by
  constructor <;> simp

theorem MovedBy.trans {c c' c'' : CellRef} {cols cols' rows rows' : Int}
    (h : c.MovedBy c' cols rows) (h' : c'.MovedBy c'' cols' rows') :
    c.MovedBy c'' (cols + cols') (rows + rows') := by
  refine ⟨h'.sheet.trans h.sheet, h'.colFixed.trans h.colFixed, h'.rowFixed.trans h.rowFixed,
    ?_, ?_⟩
  · rw [h'.col, h.col, Int.add_assoc]
  · rw [h'.row, h.row, Int.add_assoc]

/-- A reference that is moved by nothing stays as it is. -/
theorem MovedBy.eq_self {c c' : CellRef} (h : c.MovedBy c' 0 0) : c' = c := by
  obtain ⟨hsheet, hcolFixed, hrowFixed, hcol, hrow⟩ := h
  have hcol : c'.col = c.col := by omega
  have hrow : c'.row = c.row := by omega
  cases c
  cases c'
  simp_all

/-- A number that stays inside the limits moves by the distance. -/
private theorem coe_moved {n : Nat} {distance : Int} (h : 1 ≤ n + distance)
    (h' : n + distance ≤ (Text.max32 : Int)) : (moved n distance : Int) = n + distance := by
  have hpow : Nat.pow 2 32 = Text.max32 + 1 := by decide
  have hmax : max 1 ((n : Int) + distance) = n + distance := by omega
  unfold moved
  rw [hmax, hpow, Int.natCast_emod, Int.toNat_of_nonneg (by omega)]
  exact Int.emod_eq_of_lt (by omega) (by omega)

/-- A cell is moved exactly if its coordinates stay positive and do not overflow. -/
theorem movedBy_offset_of_le_max32 (c : CellRef) {cols rows : Int} (hcol : 1 ≤ c.col + cols)
    (hcol' : c.col + cols ≤ (Text.max32 : Int)) (hrow : 1 ≤ c.row + rows)
    (hrow' : c.row + rows ≤ (Text.max32 : Int)) : c.MovedBy (c.offset cols rows) cols rows :=
  ⟨rfl, rfl, rfl, coe_moved hcol hcol', coe_moved hrow hrow'⟩

/-- A cell that does not leave the sheet is moved exactly. -/
theorem movedBy_offset (c : CellRef) {cols rows : Int} (hcol : 1 ≤ c.col + cols)
    (hcol' : c.col + cols ≤ maxCols) (hrow : 1 ≤ c.row + rows) (hrow' : c.row + rows ≤ maxRows) :
    c.MovedBy (c.offset cols rows) cols rows := by
  have hmax := limits_le_max32
  exact c.movedBy_offset_of_le_max32 hcol (by omega) hrow (by omega)

/-- A moved reference keeps its text as long as it is inside the sheet. -/
theorem MovedBy.readable {c c' : CellRef} {cols rows : Int} (h : c.MovedBy c' cols rows)
    (hc : c.Readable) (hcol : 1 ≤ c.col + cols) (hcol' : c.col + cols ≤ maxCols)
    (hrow : 1 ≤ c.row + rows) (hrow' : c.row + rows ≤ maxRows) : c'.Readable := by
  have hc' := h.col
  have hr' := h.row
  refine ⟨?_, by omega, by omega, by omega, by omega⟩
  rw [h.sheet]
  exact hc.qualifier

end CellRef

namespace RangeRef

/-- A range contains the cells between its corners. -/
theorem contains_iff {r : RangeRef} {cell : CellRef} : r.contains cell = true ↔
    r.start.row ≤ cell.row ∧ cell.row ≤ r.stop.row ∧ r.start.col ≤ cell.col ∧
      cell.col ≤ r.stop.col := by
  simp only [RangeRef.contains, CellRef.within, Bool.and_eq_true, decide_eq_true_eq, and_assoc]

/-- Both corners are moved by the same distance. -/
structure MovedBy (r r' : RangeRef) (cols rows : Int) : Prop where
  start : r.start.MovedBy r'.start cols rows
  stop : r.stop.MovedBy r'.stop cols rows

theorem MovedBy.refl (r : RangeRef) : r.MovedBy r 0 0 := ⟨.refl _, .refl _⟩

theorem MovedBy.trans {r r' r'' : RangeRef} {cols cols' rows rows' : Int}
    (h : r.MovedBy r' cols rows) (h' : r'.MovedBy r'' cols' rows') :
    r.MovedBy r'' (cols + cols') (rows + rows') :=
  ⟨h.start.trans h'.start, h.stop.trans h'.stop⟩

/-- A range that moved nowhere is the range itself. -/
theorem MovedBy.eq_self {r r' : RangeRef} (h : r.MovedBy r' 0 0) : r' = r := by
  have hstart := h.start.eq_self
  have hstop := h.stop.eq_self
  cases r
  cases r'
  simp_all

/-- The range of a single cell stays one when it is moved. -/
theorem MovedBy.single {r r' : RangeRef} {cols rows : Int} (h : r.MovedBy r' cols rows)
    (hr : r.start = r.stop) : r'.start = r'.stop := by
  obtain ⟨⟨s, f, g, c, d⟩, ⟨s', f', g', c', d'⟩⟩ := h
  -- Both corners start from one place and go the same distance.
  rw [hr] at s f g c d
  have hcol : r'.start.col = r'.stop.col := by omega
  have hrow : r'.start.row = r'.stop.row := by omega
  cases hs : r'.start
  cases ht : r'.stop
  simp_all

/-- The upper left corner stands left of the other or above it, or both are one. -/
def Ordered (r : RangeRef) : Prop := r.start.col ≤ r.stop.col ∧ r.start.row ≤ r.stop.row

instance (r : RangeRef) : Decidable r.Ordered :=
  inferInstanceAs (Decidable (r.start.col ≤ r.stop.col ∧ r.start.row ≤ r.stop.row))

/-- A range that moves as a whole keeps its corners in order. -/
theorem MovedBy.ordered {r r' : RangeRef} {cols rows : Int} (h : r.MovedBy r' cols rows)
    (hr : r.Ordered) : r'.Ordered := by
  obtain ⟨hcol, hrow⟩ := hr
  have := h.start.col
  have := h.stop.col
  have := h.start.row
  have := h.stop.row
  exact ⟨by omega, by omega⟩

end RangeRef

namespace Layout

open Xml (Element)

/-! ### Steps -/

/-- One step of moving what a sheet refers to. -/
inductive Move where
  /-- Columns are inserted at a cell. -/
  | right (anchor : CellRef) (cols : Int)
  /-- Rows are inserted below a row. -/
  | down (shift : RowShift)

namespace Move

/-- Where a region goes. -/
def region? : Move → RangeRef → Option RangeRef
  | .right anchor cols => movedRight? anchor cols
  | .down s => fun r => if s.rows = 0 then none else s.moved? r

/-- Where the range of a name goes. -/
def named? : Move → RangeRef → Option RangeRef
  | .right anchor cols => movedRight? anchor cols
  | .down s => fun r => if s.rows = 0 then none else s.movedName? r

/-- The regions that a region is repeated on. -/
def clones : Move → Element → List Element
  | .right _ _ => fun _ => []
  | .down s => s.clones

/-- Moves the merged regions of a list of them. -/
def merges : Move → Element → Element
  | .right anchor cols => fun e => e.mapNamed "mergeCell" (moveRef (movedRight? anchor cols))
  | .down s => fun e => if s.rows = 0 then e else s.shiftMerges e

/-- Moves the manual page breaks of a list of them. -/
def breaks : Move → Element → Element
  | .right _ _ => id
  | .down s => fun e =>
    if s.rows ≠ 0 ∧ s.pushDownPageBreaks then e.mapNamed "brk" s.shiftBreak else e

end Move

/-! ### One element -/

/-- A region that moves is named as before. -/
@[simp]
theorem name_moveRef (rule : RangeRef → Option RangeRef) (e : Element) :
    (moveRef rule e).name = e.name := by
  unfold moveRef
  split <;> rfl

/-- So is a defined name. -/
@[simp]
theorem name_moveName (rule : RangeRef → Option RangeRef) (e : Element) :
    (moveName rule e).name = e.name := by
  unfold moveName
  split <;> rfl

/-- A defined name keeps its attributes, for the range is its text. -/
@[simp]
theorem attributes_moveName (rule : RangeRef → Option RangeRef) (e : Element) :
    (moveName rule e).attributes = e.attributes := by
  unfold moveName
  split <;> rfl

/-- A range that was read from a region can be read back. -/
theorem readable_of_refRange? {e : Element} {r : RangeRef} (h : refRange? e = some r) :
    r.Readable := by
  obtain ⟨text, -, hparse⟩ := Option.bind_eq_some_iff.1 h
  exact RangeRef.readable_of_parse? hparse

/-- A range that was written reads back. -/
theorem refRange?_setAttr (e : Element) {r : RangeRef} (h : r.Readable) :
    refRange? (e.setAttr "ref" r.a1) = some r := by
  simp [refRange?, RangeRef.parse?_a1 h]

/-- An element whose range no rule moves stays as it is. -/
theorem moveRef_of_none {rule : RangeRef → Option RangeRef} {e : Element}
    (h : (refRange? e).bind rule = none) : moveRef rule e = e := by
  simp [moveRef, h]

/-- A name that the rule does not concern is left as it is. -/
theorem moveName_of_none {rule : RangeRef → Option RangeRef} {e : Element}
    (h : (nameRange? e).bind rule = none) : moveName rule e = e := by
  simp [moveName, h]

/-- A shift treats defined names as its move does. -/
theorem RowShift.shiftName_eq (s : RowShift) : s.shiftName = moveName (Move.named? (.down s)) := by
  funext e
  -- A shift by no rows changes no name, and neither does its rule.
  unfold RowShift.shiftName
  split
  · rename_i hrows
    refine (moveName_of_none ?_).symm
    cases nameRange? e <;> simp [Move.named?, hrows]
  · rename_i hrows
    have hrule : Move.named? (.down s) = s.movedName? := by
      funext r
      simp [Move.named?, hrows]
    rw [hrule]

/-- The text of a name for a range, which may be written as a single reference. -/
def nameText (isRange : Bool) (r : RangeRef) : String := if isRange then r.a1 else r.start.a1

/-- A moved name reads as the range it was given, and stays a single reference if it was one. -/
theorem nameRange?_moveName {rule : RangeRef → Option RangeRef} {e : Element} {r r' : RangeRef}
    (hr : nameRange? e = some r) (hrule : rule r = some r') (hread : r'.Readable)
    (hsingle : r.start = r.stop → r'.start = r'.stop) :
    (moveName rule e).text = nameText (RangeRef.isWritten e.text) r' ∧
      nameRange? (moveName rule e) = some r' ∧
      RangeRef.isWritten (moveName rule e).text = RangeRef.isWritten e.text := by
  have htext : (moveName rule e).text = nameText (RangeRef.isWritten e.text) r' := by
    simp [moveName, hr, hrule, nameText]
  refine ⟨htext, ?_⟩
  rw [nameRange?, htext]
  cases hw : RangeRef.isWritten e.text with
  | true => simp [nameText, RangeRef.parse?_a1 hread, RangeRef.isWritten_a1]
  | false =>
    -- A text without a colon is one reference, which is written again as one.
    have hcell := hsingle (RangeRef.start_eq_stop_of_parse? hr hw)
    have hparse := RangeRef.parse?_cell_a1 hread.start hread.colon
    have hwritten := RangeRef.isWritten_cell_a1 hread.colon
    simp only [nameText, Bool.false_eq_true, ↓reduceIte, hparse, hwritten, and_true]
    rw [Option.some.injEq]
    cases r'
    simp_all

/-! ### Many steps -/

/-- Rules that take one range to another. Each is given what the rules before it wrote, and what is
written reads back. -/
inductive Follows : List (RangeRef → Option RangeRef) → RangeRef → RangeRef → Prop
  | nil (r : RangeRef) : Follows [] r r
  | stay {rule rules r r'} (h : rule r = none) (hrest : Follows rules r r') :
      Follows (rule :: rules) r r'
  | move {rule rules r r₁ r'} (h : rule r = some r₁) (hread : r₁.Readable)
      (hsingle : r.start = r.stop → r₁.start = r₁.stop) (hrest : Follows rules r₁ r') :
      Follows (rule :: rules) r r'

/-- Moves an element by one rule after another. -/
def moveRefs (rules : List (RangeRef → Option RangeRef)) (e : Element) : Element :=
  rules.foldl (fun e rule => moveRef rule e) e

/-- Moves a name by one rule after another. -/
def moveNames (rules : List (RangeRef → Option RangeRef)) (e : Element) : Element :=
  rules.foldl (fun e rule => moveName rule e) e

/-- Rules applied in two goes are the rules of both lists. -/
@[simp]
theorem moveNames_append (rules rules' : List (RangeRef → Option RangeRef)) (e : Element) :
    moveNames (rules ++ rules') e = moveNames rules' (moveNames rules e) := List.foldl_append

/-- Many rules keep the attributes of a name as one does. -/
theorem attributes_moveNames (rules : List (RangeRef → Option RangeRef)) (e : Element) :
    (moveNames rules e).attributes = e.attributes := by
  induction rules generalizing e with
  | nil => rfl
  | cons rule rules ih => exact (ih _).trans (attributes_moveName rule e)

/-- A region moves as its range does. -/
theorem refRange?_of_follows {rules : List (RangeRef → Option RangeRef)} {r r' : RangeRef}
    (h : Follows rules r r') {e : Element} (he : refRange? e = some r) :
    refRange? (moveRefs rules e) = some r' ∧
      (moveRefs rules e = e ∨ moveRefs rules e = e.setAttr "ref" r'.a1) := by
  -- By the steps: each one reads what the one before it wrote.
  induction h generalizing e with
  | nil r => exact ⟨he, .inl rfl⟩
  | @stay rule rules r r' h _ ih =>
    have hstay : moveRef rule e = e := moveRef_of_none (by simp [he, h])
    simp only [moveRefs, List.foldl_cons, hstay]
    exact ih he
  | @move rule rules r r₁ r' h hread _ _ ih =>
    have hmove : moveRef rule e = e.setAttr "ref" r₁.a1 := by simp [moveRef, he, h]
    have hrange := refRange?_setAttr e hread
    obtain ⟨hread', htext⟩ := ih hrange
    simp only [moveRefs, List.foldl_cons, hmove]
    refine ⟨hread', .inr ?_⟩
    rcases htext with htext | htext
    · -- The range did not move again, so it is the one just written.
      have hsame : r₁ = r' := by
        rw [moveRefs] at htext hread'
        rw [htext, hrange] at hread'
        exact Option.some.inj hread'
      rw [moveRefs] at htext
      rw [htext, hsame]
    · rw [moveRefs] at htext
      rw [htext, Element.setAttr_setAttr]

/-- A name moves as its range does, and stays a single reference if it was one. -/
theorem nameRange?_of_follows {rules : List (RangeRef → Option RangeRef)} {r r' : RangeRef}
    (h : Follows rules r r') {e : Element} (he : nameRange? e = some r) :
    nameRange? (moveNames rules e) = some r' ∧
      RangeRef.isWritten (moveNames rules e).text = RangeRef.isWritten e.text ∧
      ((moveNames rules e).text = e.text ∨
        (moveNames rules e).text = nameText (RangeRef.isWritten e.text) r') := by
  induction h generalizing e with
  | nil r => exact ⟨he, rfl, .inl rfl⟩
  | @stay rule rules r r' h _ ih =>
    have hstay : moveName rule e = e := moveName_of_none (by simp [he, h])
    simp only [moveNames, List.foldl_cons, hstay]
    exact ih he
  | @move rule rules r r₁ r' h hread hsingle _ ih =>
    obtain ⟨htext, hrange, hwritten⟩ := nameRange?_moveName he h hread hsingle
    obtain ⟨hread', hwritten', htext'⟩ := ih hrange
    simp only [moveNames, List.foldl_cons] at hread' hwritten' htext' ⊢
    refine ⟨hread', hwritten'.trans hwritten, .inr ?_⟩
    rcases htext' with htext' | htext'
    · -- The range did not move again, so it is the one just written.
      have hsame : r₁ = r' := by
        rw [nameRange?, htext', ← nameRange?, hrange] at hread'
        exact Option.some.inj hread'
      rw [htext', htext, hsame]
    · rw [htext', hwritten]

/-! ### The list of merged regions -/

/-- The `mergeCell` elements of a sheet. -/
def mergeCells (sheet : Element) : List Element :=
  match sheet.child? "mergeCells" with
  | some merges => merges.named "mergeCell"
  | none => []

/-- One step on a list of merged regions: all of them move, and the copies come last. -/
def stepMerges (regions : List Element) (m : Move) : List Element :=
  regions.map (moveRef m.region?) ++ regions.flatMap m.clones

/-- The copies of an element are named as it is. -/
theorem name_of_mem_clones {s : RowShift} {e c : Element} (hc : c ∈ s.clones e) :
    c.name = e.name := by
  unfold RowShift.clones at hc
  split at hc
  · split at hc
    · obtain ⟨k, -, rfl⟩ := List.mem_map.1 hc
      rfl
    · cases hc
  · cases hc

/-- Copies are merged regions too. -/
theorem name_of_mem_flatMap_clones {s : RowShift} {merges c : Element}
    (hc : c ∈ (merges.named "mergeCell").flatMap s.clones) : c.name = "mergeCell" := by
  obtain ⟨e, he, hc⟩ := List.mem_flatMap.1 hc
  rw [name_of_mem_clones hc, Element.name_of_mem_named merges "mergeCell" he]

/-- After a shift the regions are those of before, moved, and their clones behind them. -/
theorem named_shiftMerges (s : RowShift) (merges : Element) :
    (s.shiftMerges merges).named "mergeCell" =
      (merges.named "mergeCell").map (moveRef s.moved?) ++
        (merges.named "mergeCell").flatMap s.clones := by
  unfold RowShift.shiftMerges
  dsimp only
  rw [Element.named_setAttr, Element.named_pushAll,
    Element.named_mapNamed merges "mergeCell" (name_moveRef s.moved?),
    List.filter_eq_self.2 fun c hc => by simp [name_of_mem_flatMap_clones hc]]

/-- What one step does to the list of merged regions. -/
theorem named_merges (m : Move) (merges : Element) :
    (m.merges merges).named "mergeCell" = stepMerges (merges.named "mergeCell") m := by
  cases m with
  | right anchor cols =>
    simp only [stepMerges, Move.merges, Move.region?, Move.clones]
    rw [Element.named_mapNamed merges "mergeCell" (name_moveRef _)]
    simp
  | down s =>
    by_cases hrows : s.rows = 0
    · -- No rows are inserted: nothing moves, and there are no copies.
      have hstay : moveRef (Move.region? (.down s)) = id := by
        funext e
        exact moveRef_of_none (by cases refRange? e <;> simp [Move.region?, hrows])
      have hclones : Move.clones (.down s) = fun _ => [] := by
        funext e
        simp only [Move.clones, RowShift.clones, hrows]
        split
        · split <;> rfl
        · rfl
      simp [stepMerges, hstay, hclones, Move.merges, hrows]
    · have hrule : Move.region? (.down s) = s.moved? := by
        funext r
        simp [Move.region?, hrows]
      simp only [stepMerges, hrule, Move.merges, hrows, ↓reduceIte]
      exact named_shiftMerges s merges

/-- The list of regions is named as before. -/
@[simp]
theorem name_merges (m : Move) (merges : Element) : (m.merges merges).name = merges.name := by
  cases m with
  | right anchor cols => rfl
  | down s => by_cases hrows : s.rows = 0 <;> simp [Move.merges, hrows, RowShift.shiftMerges]

/-- Inserted rows change the list of merged regions as their move does, and besides only the list of
page breaks. -/
theorem child?_shiftSheet (s : RowShift) (sheet : Element) {n : String}
    (hn : n ≠ "rowBreaks") :
    (s.shiftSheet sheet).child? n =
      if n = "mergeCells" then (sheet.child? n).map (Move.merges (.down s))
      else sheet.child? n := by
  -- A shift by no rows leaves the sheet alone, as does the move that stands for it.
  have hid : s.rows = 0 → Move.merges (.down s) = id := by
    intro hrows
    funext e
    simp [Move.merges, hrows]
  have hname : ∀ e, (Move.merges (.down s) e).name = e.name := name_merges (.down s)
  unfold RowShift.shiftSheet
  by_cases hrows : s.rows = 0
  · simp [hrows, hid hrows]
  · have hmerges : Move.merges (.down s) = s.shiftMerges := by
      funext e
      simp [Move.merges, hrows]
    -- Only the list of page breaks is changed besides.
    have hbreaks : ∀ e : Element, (s.shiftBreaks e).child? n = e.child? n := by
      intro e
      unfold RowShift.shiftBreaks
      split
      · exact Element.child?_mapChild_of_ne e (fun c => Element.name_mapNamed c _ _) hn
      · rfl
    rw [hmerges] at hname ⊢
    rw [if_neg hrows, hbreaks, Element.child?_mapChild _ _ hname]
    split
    · rename_i h
      rw [h]
    · rfl

/-- The count of a list of merged regions is right. -/
def Counted (merges : Element) : Prop :=
  merges.attr? "count" = some (toString (merges.countNamed "mergeCell"))

/-- Inserted rows make the count right. -/
theorem counted_down (s : RowShift) (merges : Element) (h : s.rows ≠ 0) :
    Counted (Move.merges (.down s) merges) := by
  simp only [Counted, Move.merges, h, ↓reduceIte, RowShift.shiftMerges, Element.attr?_setAttr_self]
  rfl

/-- No step makes a right count wrong. -/
theorem Counted.step {merges : Element} (h : Counted merges) (m : Move) :
    Counted (m.merges merges) := by
  cases m with
  | right anchor cols =>
    simp only [Counted, Move.merges, Element.attr?_mapNamed, Element.countNamed] at h ⊢
    rw [Element.named_mapNamed merges "mergeCell" (name_moveRef _), List.length_map]
    exact h
  | down s =>
    by_cases hrows : s.rows = 0
    · simpa [Move.merges, hrows] using h
    · exact counted_down s merges hrows

end Layout

end SheetTemplate
