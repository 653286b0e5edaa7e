import SheetTemplate.Proofs.RegionTracking

/-!
# Defined names of other sheets

A workbook keeps the defined names of all its sheets in one list. Whether a name belongs to the
sheet at hand is asked only where a range is stretched for page breaks. Where a name is moved, right
or down, it is not asked. So a name of another sheet goes where it would go if its cells were on the
sheet at hand, and it is left alone only if nothing is inserted above or left of its address.

## Key results

- `moved_names_of_other_sheets`: where the pass takes a name of another sheet, and when it stays
- `other_sheet_name_moved`: such a name is not left alone in general
-/

namespace SheetTemplate

open Layout (Move moveName moveNames nameRange? nameText)
open Xml (Element)

/-- The range is on a sheet other than the one with a name. -/
def RangeRef.OnOtherSheet (r : RangeRef) (sheetName : String) : Prop :=
  ∃ other, r.start.sheetName? = some other ∧ other ≠ sheetName

namespace Layout

/-- A move takes a range to a place on the same sheet. -/
theorem Move.sheet_of_region? {m : Move} {r r' : RangeRef} (h : m.region? r = some r') :
    r'.start.sheet = r.start.sheet := by
  -- Every move keeps the qualifier.
  cases m with
  | right anchor cols =>
    simp only [Move.region?, movedRight?] at h
    split at h
    · cases h
      rfl
    · cases h
  | down s =>
    simp only [Move.region?, RowShift.moved?] at h
    split at h
    · cases h
    · split at h
      · cases h
        rfl
      · cases h

/-- So a range on another sheet stays on one. -/
theorem Move.onOtherSheet {m : Move} {r r' : RangeRef} {sheetName : String}
    (h : m.region? r = some r') (hr : r.OnOtherSheet sheetName) : r'.OnOtherSheet sheetName := by
  obtain ⟨other, hother, hne⟩ := hr
  refine ⟨other, ?_, hne⟩
  rw [CellRef.sheetName?, Move.sheet_of_region? h]
  exact hother

/-- Only the names of its own sheet are stretched by a step down. -/
theorem RowShift.movedName?_eq {s : RowShift} {r : RangeRef} (h : r.OnOtherSheet s.sheetName) :
    s.movedName? r = s.moved? r := by
  obtain ⟨other, hother, hne⟩ := h
  have hstretch : ¬(s.pushDownPageBreaks ∧ s.anchor < r.stop.row ∧
      r.start.sheetName? = some s.sheetName) := by
    rintro ⟨-, -, hname⟩
    rw [hother] at hname
    exact hne (Option.some.inj hname)
  rw [RowShift.movedName?, RowShift.moved?, if_neg hstretch]

/-- A name whose range no rule moves keeps its text. -/
theorem moveNames_of_none {rules : List (RangeRef → Option RangeRef)} {e : Element} {r : RangeRef}
    (he : nameRange? e = some r) (h : ∀ rule ∈ rules, rule r = none) : moveNames rules e = e := by
  induction rules with
  | nil => rfl
  | cons rule rules ih =>
    have hstay : moveName rule e = e :=
      moveName_of_none (by rw [he, Option.bind_some, h rule (by simp)])
    rw [moveNames, List.foldl_cons, hstay]
    exact ih fun rule' hrule' => h rule' (List.mem_cons_of_mem _ hrule')

end Layout

namespace Fill

open Layout (Follows RowShift)

variable {values : Substitutions} {pushDownPageBreaks : Bool} {sheetName : String}

/-! ### Moves made for another sheet -/

/-- Every step down of a pass is made for the sheet at hand. -/
private theorem sheetName_of_mem_sheetMoves {above : Nat} {visits : List RowVisit} {s : RowShift}
    (h : Move.down s ∈ sheetMoves values pushDownPageBreaks sheetName above visits) :
    s.sheetName = sheetName := by
  induction visits generalizing above with
  | nil => simp [sheetMoves] at h
  | cons v vs ih =>
    rw [sheetMoves, rowMoves, List.mem_append, List.mem_append, List.mem_singleton] at h
    rcases h with (h | h) | h
    · obtain ⟨anchor, cols, hm, -⟩ := rightMoves_spec h
      simp at hm
    · cases h
      rfl
    · exact ih h

/-- A name of another sheet goes where a merged region would go. -/
private theorem named?_eq_of_onOtherSheet {above : Nat} {visits : List RowVisit} {m : Move}
    (hm : m ∈ sheetMoves values pushDownPageBreaks sheetName above visits) {r : RangeRef}
    (hr : r.OnOtherSheet sheetName) : m.named? r = m.region? r := by
  cases m with
  | right anchor cols => rfl
  | down s =>
    rw [← sheetName_of_mem_sheetMoves hm] at hr
    simp only [Move.named?, Move.region?, RowShift.movedName?_eq hr]

/-- A range stays on its sheet, so it follows the rules for names as it follows those for merged
regions. -/
private theorem follows_named? {moves : List Move} {r r' : RangeRef}
    (hmoves : ∀ m ∈ moves, ∀ r : RangeRef, r.OnOtherSheet sheetName → m.named? r = m.region? r)
    (hr : r.OnOtherSheet sheetName) (h : Follows (moves.map Move.region?) r r') :
    Follows (moves.map Move.named?) r r' := by
  -- By the steps: what a step writes is on the other sheet again.
  induction moves generalizing r with
  | nil => exact h
  | cons m moves ih =>
    have hm : m.named? r = m.region? r := hmoves m (by simp) r hr
    have hlater := fun m' hm' => hmoves m' (List.mem_cons_of_mem m hm')
    rw [List.map_cons] at h ⊢
    cases h with
    | stay hstay hrest => exact .stay (hm.trans hstay) (ih hlater hr hrest)
    | move hmove hread hsingle hrest =>
      have hr₁ := Move.onOtherSheet hmove hr
      exact .move (hm.trans hmove) hread hsingle (ih hlater hr₁ hrest)

/-! ### Names of a pass -/

/-- What becomes of a defined name, given the name of the sheet at hand. -/
structure OtherNameMoved (values : Substitutions) (pushDownPageBreaks : Bool) (sheetName : String)
    (visits : List RowVisit) (name name' : Element) : Prop where
  attributes : name'.attributes = name.attributes
  /-- It is left alone if it would be left alone on the sheet at hand. -/
  stays : ∀ r, nameRange? name = some r → r.OnOtherSheet sheetName →
    (∀ m ∈ sheetMoves values pushDownPageBreaks sheetName 0 visits, m.region? r = none) →
    name' = name
  /-- Otherwise it moves, though nothing was inserted on its own sheet. -/
  follows : ∀ r, nameRange? name = some r → r.OnOtherSheet sheetName → r.Ordered →
    StaysInside values visits r →
    ∃ r', MovedByPass values visits r r' ∧ nameRange? name' = some r' ∧
      RangeRef.isWritten name'.text = RangeRef.isWritten name.text ∧
      (name'.text = name.text ∨ name'.text = nameText (RangeRef.isWritten name.text) r') ∧
      (r' = r ↔ netAt values visits r.start.row r.start.col = 0 ∧
        rowsAbove values visits r.start.row = 0)

/-- A range comes out where it was exactly if it was moved by nothing. -/
theorem MovedByPass.eq_self_iff {visits : List RowVisit} {r r' : RangeRef}
    (h : MovedByPass values visits r r') :
    r' = r ↔ netAt values visits r.start.row r.start.col = 0 ∧
      rowsAbove values visits r.start.row = 0 := by
  constructor
  · rintro rfl
    have hcol := h.start.col
    have hrow := h.start.row
    omega
  · rintro ⟨hnet, habove⟩
    unfold MovedByPass at h
    rw [hnet, habove] at h
    exact h.eq_self

/-- The names of other sheets move with the sheet at hand, whatever the options. -/
theorem moved_names_of_other_sheets {options : FillOptions} {files : ImageFiles} {p q : Pass}
    (hp : p.Fresh) (hrun : p.run options files values = .ok q)
    (hinc : Increasing (sourceRows p.sheet.doc.root))
    (hfit : RowsFit values 0 (p.visits options files values)) :
    Visited p.strings q.strings (sourceRows p.sheet.doc.root) (p.visits options files values) ∧
      List.Forall₂ (OtherNameMoved values options.pushDownPageBreaks p.sheet.name
        (p.visits options files values)) p.workbook.definedNames q.workbook.definedNames := by
  obtain ⟨blocks, hsheet⟩ := sheetRun_of_run hp hrun
  generalize p.visits options files values = visits at hsheet hfit ⊢
  -- Each move treats a range on another sheet as it treats a region.
  have hnamed := fun m (hm : m ∈ sheetMoves values options.pushDownPageBreaks p.sheet.name 0 visits)
    (r : RangeRef) (hr : r.OnOtherSheet p.sheet.name) => named?_eq_of_onOtherSheet hm hr
  rw [(hsheet.outcome hfit).names]
  refine ⟨hsheet.visited, List.forall₂_map_right_iff.2 (List.forall₂_same.2 fun e _ => ?_)⟩
  refine ⟨Layout.attributes_moveNames _ e, fun r hread hr hnone => ?_,
    fun r hread hr hordered hin => ?_⟩
  · apply Layout.moveNames_of_none hread
    intro rule hrule
    obtain ⟨m, hm, rfl⟩ := List.mem_map.1 hrule
    exact (hnamed m hm r hr).trans (hnone m hm)
  · obtain ⟨r', hmoved, -, hleads⟩ := leads_of_increasing options.pushDownPageBreaks p.sheet.name
      hinc hsheet.visited (RangeRef.readable_of_parse? hread) hordered hin
    obtain ⟨hrange, hwritten, htext⟩ :=
      Layout.nameRange?_of_follows (follows_named? hnamed hr hleads.follows) hread
    exact ⟨r', hmoved, hrange, hwritten, htext, hmoved.eq_self_iff⟩

/-- The pass over the small sheet, with a name for a cell of another sheet. -/
def otherNamePass : Pass :=
  { samplePass with workbook := samplePass.workbook.mapNames (·.setText "Other!$B$2") }

/-- The name of the sample goes right and down with the cells of this sheet. -/
theorem otherNamePass_runs :
    ∃ q, otherNamePass.run {} (fun _ => none) sampleValues = .ok q ∧
      q.workbook.definedNames.map Element.text = ["Other!$D$3"] := by
  have hok : ((otherNamePass.run {} (fun _ => none) sampleValues).toOption.map fun q =>
      q.workbook.definedNames.map Element.text) = some ["Other!$D$3"] := by
    decide +kernel
  exact exists_eq_ok hok

/-- The name `Other!$B$2` moves down by a row and right by two columns. -/
theorem moved_names_of_other_sheets_sample :
    ∃ q, otherNamePass.run {} (fun _ => none) sampleValues = .ok q ∧
      ∃ name ∈ q.workbook.definedNames, ∃ r, nameRange? name = some r ∧
        RangeRef.MovedBy ⟨⟨some "Other", 2, 2, true, true⟩, ⟨some "Other", 2, 2, true, true⟩⟩
          r 2 1 := by
  obtain ⟨q, hq, -⟩ := otherNamePass_runs
  obtain ⟨-, hnames⟩ := moved_names_of_other_sheets ⟨rfl, rfl⟩ hq (by decide +kernel)
    (by decide +kernel)
  have hname : 0 < q.workbook.definedNames.length := by
    rw [← hnames.length_eq]
    decide +kernel
  -- The name refers to `B2` of another sheet.
  obtain ⟨r, hmoved, hread, -⟩ := (hnames.get (by decide +kernel) hname).follows
    ⟨⟨some "Other", 2, 2, true, true⟩, ⟨some "Other", 2, 2, true, true⟩⟩ (by decide +kernel)
    ⟨"Other", by decide +kernel, by decide +kernel⟩ (by decide +kernel)
    ⟨by decide +kernel, by decide +kernel⟩
  refine ⟨q, hq, _, List.get_mem _ ⟨0, hname⟩, r, hread, ?_⟩
  unfold MovedByPass at hmoved
  have hnet : netAt sampleValues (otherNamePass.visits {} (fun _ => none) sampleValues) 2 2 =
      2 := by
    decide +kernel
  have habove : rowsAbove sampleValues (otherNamePass.visits {} (fun _ => none) sampleValues) 2 =
      1 := by
    decide +kernel
  rwa [hnet, habove] at hmoved

/-- A pass does not leave the names of other sheets alone. -/
theorem other_sheet_name_moved :
    ¬∀ (options : FillOptions) (files : ImageFiles) (values : Substitutions) (p q : Pass),
      p.Fresh → p.run options files values = .ok q →
      List.Forall₂ (fun name name' => ∀ r, nameRange? name = some r →
        r.OnOtherSheet p.sheet.name → name'.text = name.text)
        p.workbook.definedNames q.workbook.definedNames := by
  intro hclaim
  obtain ⟨q, hq, htext⟩ := otherNamePass_runs
  have hnames := hclaim {} (fun _ => none) sampleValues otherNamePass q ⟨rfl, rfl⟩ hq
  have hlength : 0 < q.workbook.definedNames.length := by
    rw [← hnames.length_eq]
    decide +kernel
  have hkept := hnames.get (by decide +kernel) hlength
    ⟨⟨some "Other", 2, 2, true, true⟩, ⟨some "Other", 2, 2, true, true⟩⟩ (by decide +kernel)
    ⟨"Other", by decide +kernel, by decide +kernel⟩
  -- The text that the claim keeps is not the one that the pass leaves.
  have hfirst : (q.workbook.definedNames.map Element.text)[0]? = some "Other!$B$2" := by
    rw [List.getElem?_map, List.getElem?_eq_getElem hlength]
    refine congrArg some (hkept.trans ?_)
    decide +kernel
  rw [htext] at hfirst
  exact absurd hfirst (by decide +kernel)

end Fill

end SheetTemplate
