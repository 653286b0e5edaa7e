import SheetTemplate.Proofs.RegionTracking

/-!
# Defined names follow their first cell

A defined name is text: every step reads the reference it holds and writes it anew if it moves.
Where page breaks are not pushed down, names move as merged regions do, so the text that is left in
the end is that of the moved reference, with its qualifier, its markers and its form.

## Key results

- `defined_names_follow`: the defined names of a pass
-/

namespace SheetTemplate.Fill

open Layout (Move nameRange? nameText attributes_moveNames)
open Xml (Element)

variable {values : Substitutions}

/-- Where page breaks stay, a step takes the range of a name where it takes a region. -/
private theorem named?_eq_region? {sheetName : String} {above : Nat} {visits : List RowVisit}
    {m : Move} (h : m ∈ sheetMoves values false sheetName above visits) :
    m.named? = m.region? := by
  induction visits generalizing above with
  | nil => simp [sheetMoves] at h
  | cons v vs ih =>
    rw [sheetMoves, rowMoves, List.mem_append, List.mem_append, List.mem_singleton] at h
    rcases h with (h | rfl) | h
    · obtain ⟨anchor, cols, rfl, -⟩ := rightMoves_spec h
      rfl
    · -- Only pushed page breaks make the step below a row treat names in their own way.
      funext r
      simp [Move.named?, Move.region?, Layout.RowShift.movedName?, Layout.RowShift.moved?]
    · exact ih h

/-- What becomes of a defined name: its text is that of the moved reference, a single one if it was
one, and a range if it was one. -/
structure NameFollows (values : Substitutions) (visits : List RowVisit) (name name' : Element) :
    Prop where
  attributes : name'.attributes = name.attributes
  follows : ∀ r, nameRange? name = some r → r.Ordered → StaysInside values visits r →
    ∃ r', MovedByPass values visits r r' ∧ nameRange? name' = some r' ∧
      RangeRef.isWritten name'.text = RangeRef.isWritten name.text ∧
      (name'.text = name.text ∨ name'.text = nameText (RangeRef.isWritten name.text) r')

/-- Defined names of a pass that leaves page breaks where they are: each that reads as a reference
follows its first cell, with its end not before its start. -/
theorem defined_names_follow {options : FillOptions} {files : ImageFiles} {p q : Pass}
    (hp : p.Fresh) (hrun : p.run options files values = .ok q)
    (hinc : Increasing (sourceRows p.sheet.doc.root))
    (hfit : RowsFit values 0 (p.visits options files values))
    (hbreaks : options.pushDownPageBreaks = false) :
    Visited p.strings q.strings (sourceRows p.sheet.doc.root) (p.visits options files values) ∧
      List.Forall₂ (NameFollows values (p.visits options files values))
        p.workbook.definedNames q.workbook.definedNames := by
  obtain ⟨blocks, hsheet⟩ := sheetRun_of_run hp hrun
  generalize p.visits options files values = visits at hsheet hfit ⊢
  -- A name is moved by the rules for regions, each time it is written anew.
  have hnames := (hsheet.outcome hfit).names
  rw [hbreaks, List.map_congr_left fun m hm => named?_eq_region? hm] at hnames
  rw [hnames]
  refine ⟨hsheet.visited, List.forall₂_map_right_iff.2 (List.forall₂_same.2 fun e _ => ?_)⟩
  refine ⟨attributes_moveNames _ e, fun r hread hordered hin => ?_⟩
  obtain ⟨r', hmoved, -, hleads⟩ := leads_of_increasing false p.sheet.name hinc hsheet.visited
    (RangeRef.readable_of_parse? hread) hordered hin
  obtain ⟨hrange, hwritten, htext⟩ := Layout.nameRange?_of_follows hleads.follows hread
  exact ⟨r', hmoved, hrange, hwritten, htext⟩

/-- The name `Plan!$B$2` moves down by a row and right by two columns. -/
theorem defined_names_follow_sample :
    ∃ q, samplePass.run {} (fun _ => none) sampleValues = .ok q ∧
      ∃ name ∈ q.workbook.definedNames, ∃ r, nameRange? name = some r ∧
        RangeRef.MovedBy ⟨⟨some "Plan", 2, 2, true, true⟩, ⟨some "Plan", 2, 2, true, true⟩⟩ r 2 1 ∧
        RangeRef.isWritten name.text = false := by
  obtain ⟨q, hq⟩ := samplePass_runs
  obtain ⟨-, hnames⟩ := defined_names_follow samplePass_fresh hq (by decide +kernel)
    (by decide +kernel) rfl
  have hname : 0 < q.workbook.definedNames.length := by
    rw [← hnames.length_eq]
    decide +kernel
  -- The name of the sample refers to `B2`.
  obtain ⟨r, hmoved, hread, hwritten, -⟩ := (hnames.get (by decide +kernel) hname).follows
    ⟨⟨some "Plan", 2, 2, true, true⟩, ⟨some "Plan", 2, 2, true, true⟩⟩ (by decide +kernel)
    (by decide +kernel) ⟨by decide +kernel, by decide +kernel⟩
  refine ⟨q, hq, _, List.get_mem _ ⟨0, hname⟩, r, hread, ?_, hwritten.trans (by decide +kernel)⟩
  unfold MovedByPass at hmoved
  have hnet : netAt sampleValues (samplePass.visits {} (fun _ => none) sampleValues) 2 2 = 2 := by
    decide +kernel
  have habove : rowsAbove sampleValues (samplePass.visits {} (fun _ => none) sampleValues) 2 =
      1 := by
    decide +kernel
  rwa [hnet, habove] at hmoved

end SheetTemplate.Fill
