import SheetTemplate.Proofs.PassSimulation

/-!
# Twin passes

A pass does not read the workbook or the content types. It only changes them: it moves defined names
by rules and adds content types that are missing. Two passes that differ in nothing else therefore
take the same steps, and a relation between their workbooks and their content types that these
changes keep holds of what they come to. In the same way a property of string tables is kept if new
texts keep it.

A pass is its own twin, so that a relation that looks at one side only is an invariant.

## Key results

- `twins_run`: twins come to twins, or fail for the same reason
- `twins_of_run`: what a pass keeps
-/

namespace SheetTemplate.Fill

open Xml (Element)

/-- What is asked of two passes beyond being equal elsewhere: relations between their workbooks and
their content types and a property of their string table, each kept by what a pass does. -/
structure TwinRelation where
  workbook : Workbook → Workbook → Prop
  types : ContentTypes → ContentTypes → Prop
  strings : StringTable → Prop
  moveNames {w w' : Workbook} (rule : RangeRef → Option RangeRef) : workbook w w' →
    workbook (w.mapNames (Layout.moveName rule)) (w'.mapNames (Layout.moveName rule))
  ensureDefault {t t' : ContentTypes} (extension type : String) : types t t' →
    types (t.ensureDefault extension type) (t'.ensureDefault extension type)
  ensureOverride {t t' : ContentTypes} (part type : String) : types t t' →
    types (t.ensureOverride part type) (t'.ensureOverride part type)
  index {t : StringTable} (text : String) : strings t → strings (t.index text).1

/-- Twins are passes side by side that write the same cells. -/
private def TwinRelation.simulation (R : TwinRelation) : Simulation where
  workbook := R.workbook
  types := R.types
  strings t t' := t = t' ∧ R.strings t
  cell _ _ c c' := c = c'
  source _ := True
  bare _ := True
  moveNames := R.moveNames
  ensureDefault := R.ensureDefault
  ensureOverride := R.ensureOverride
  index text h := ⟨by rw [h.1], R.index text h.2⟩
  source_setAttr _ _ := trivial
  bare_setAttr _ _ _ := trivial
  bare_shallow _ := trivial
  bare_removeElements _ := trivial
  grow _ _ h := h
  place h := ⟨by rw [h], by rw [h]⟩
  cell_setAttr _ h := by rw [h]
  shown h _ _ := by rw [h.1]
  kept _ _ := rfl
  emptied _ _ := rfl
  insertText _ h _ _ := by rw [h.1]
  insertValue _ h _ _ := by rw [h.1]

namespace Pass

/-- Passes that differ in the workbook and the content types only, and there are related. -/
inductive Twins (R : TwinRelation) (p : Pass) : Pass → Prop
  | intro {workbook : Workbook} {types : ContentTypes} (hw : R.workbook p.workbook workbook)
      (ht : R.types p.types types) (hs : R.strings p.strings) :
      Twins R p { p with workbook, types }

/-- A pass is its own twin if what it has is related to itself. -/
theorem Twins.self {R : TwinRelation} {p : Pass} (hw : R.workbook p.workbook p.workbook)
    (ht : R.types p.types p.types) (hs : R.strings p.strings) : Twins R p p := .intro hw ht hs

/-- The workbooks of twins are related. -/
theorem Twins.workbook {R : TwinRelation} {p p' : Pass} (h : Twins R p p') :
    R.workbook p.workbook p'.workbook := by
  cases h with
  | intro hw _ _ => exact hw

/-- So are their content types. -/
theorem Twins.types {R : TwinRelation} {p p' : Pass} (h : Twins R p p') :
    R.types p.types p'.types := by
  cases h with
  | intro _ ht _ => exact ht

/-- And their string tables are as the relation says. -/
theorem Twins.strings {R : TwinRelation} {p p' : Pass} (h : Twins R p p') :
    R.strings p.strings := by
  cases h with
  | intro _ _ hs => exact hs

/-- Failures for the same reason, with the same pictures left out. -/
def SameFailure (f f' : Failure) : Prop :=
  f.error = f'.error ∧ f.left.skipped = f'.left.skipped

variable {R : TwinRelation} {p p' : Pass}

/-- Twins have what a simulation asks for. -/
private theorem related_of_twins (h : Twins R p p') : R.simulation.Related p p' := by
  cases h with
  | intro hw ht hs =>
    exact .intro hw ht ⟨rfl, hs⟩
      (List.forall₂_same.2 fun _ _ => Simulation.rowLike_self trivial fun _ _ => rfl)

/-- Passes that write the same cells finish the same rows. -/
private theorem twins_of_related (h : R.simulation.Related p p') : Twins R p p' := by
  have hrows : p.rows = p'.rows := by
    refine Array.toList_inj.1 (List.forall₂_eq_eq_eq.le _ _ (h.rows.imp fun row row' hrow => ?_))
    obtain ⟨base, cells, cells', -, -, hcells, rfl, rfl⟩ := hrow
    rw [List.forall₂_eq_eq_eq.le _ _ hcells]
  cases h with
  | intro hw ht hs =>
    obtain ⟨rfl, hs⟩ := hs
    cases hrows
    exact .intro hw ht hs

/-- Twin passes come to twins, or fail for the same reason. -/
theorem twins_run (h : Twins R p p') (options : FillOptions) (files : ImageFiles)
    (values : Substitutions) :
    BothOrNeither SameFailure (Twins R) (p.run options files values)
      (p'.run options files values) := by
  have hrun := Simulation.sim_run (related_of_twins h) (fun _ _ => ⟨trivial, fun _ _ => trivial⟩)
    options files values
  generalize p.run options files values = x at hrun ⊢
  generalize p'.run options files values = x' at hrun ⊢
  cases hrun with
  | error hf => exact .error ⟨hf.error, hf.skipped⟩
  | ok hq =>
    obtain ⟨r, r', hr, -, rfl, rfl⟩ := hq
    cases twins_of_related hr.related with
    | intro hw ht hs => exact .ok (.intro hw ht hs)

/-- What a pass keeps of its own workbook, content types and string table. -/
theorem twins_of_run {options : FillOptions} {files : ImageFiles} {values : Substitutions}
    {q : Pass} (h : p.run options files values = .ok q) (hp : Twins R p p) : Twins R q q := by
  have hrun := twins_run hp options files values
  rw [h] at hrun
  cases hrun with
  | ok hq => exact hq

end Pass

end SheetTemplate.Fill
