import SheetTemplate.Proofs.RegionTracking

/-!
# Print ranges and page breaks follow the rows

Where page breaks are pushed down, a row that generates rows moves what lies below it: manual page
breaks, names that begin below it, and of the names of the sheet those that only end below it. So
the two ends of a range move by two rules, and one row may concern both of them, one, or none.
`Stands` says where a source row is found between two rows of a pass; it settles every comparison
with the row at hand, and with it which rule applies.

## Key results

- `follows_sheetMoves`: where the ends of a range go
- `breakId?_sheetMoves`: where a page break goes
- `print_ranges_track_rows`: the defined names and page breaks of a pass
-/

namespace SheetTemplate

namespace Layout

open Text (natural32?)
open Xml (Element)

/-! ### Page breaks -/

/-- The row above a manual page break, if it can be read. -/
def breakId? (brk : Element) : Option Nat := (brk.attr? "id").bind natural32?

/-- The manual page breaks of a sheet. -/
def pageBreaks (sheet : Element) : List Element :=
  match sheet.child? "rowBreaks" with
  | some breaks => breaks.named "brk"
  | none => []

/-- Moves one manual page break. -/
def Move.pageBreak : Move → Element → Element
  | .right _ _ => id
  | .down s => if s.rows ≠ 0 ∧ s.pushDownPageBreaks then s.shiftBreak else id

/-- A break stays a break. -/
@[simp]
theorem name_shiftBreak (s : RowShift) (brk : Element) : (s.shiftBreak brk).name = brk.name := by
  unfold RowShift.shiftBreak
  split
  · split <;> rfl
  · rfl

/-- The list of breaks keeps its name. -/
@[simp]
theorem name_breaks (m : Move) (breaks : Element) : (m.breaks breaks).name = breaks.name := by
  cases m with
  | right anchor cols => rfl
  | down s =>
    unfold Move.breaks
    dsimp only
    split <;> rfl

/-- One step moves every page break of the list by itself. -/
theorem named_breaks (m : Move) (breaks : Element) :
    (m.breaks breaks).named "brk" = (breaks.named "brk").map m.pageBreak := by
  cases m with
  | right anchor cols => exact (List.map_id _).symm
  | down s =>
    unfold Move.breaks Move.pageBreak
    dsimp only
    split
    · exact Element.named_mapNamed breaks "brk" (name_shiftBreak s)
    · exact (List.map_id _).symm

/-- What the moves do to the list of breaks they do to each break. -/
theorem named_foldl_breaks (moves : List Move) (breaks : Element) :
    (moves.foldl (fun e m => m.breaks e) breaks).named "brk" =
      (breaks.named "brk").map fun b => moves.foldl (fun b m => m.pageBreak b) b := by
  induction moves generalizing breaks with
  | nil => exact (List.map_id _).symm
  | cons m moves ih =>
    rw [List.foldl_cons, ih, named_breaks, List.map_map]
    rfl

/-- What becomes of a page break when rows are inserted: it moves if it lies below them. -/
theorem breakId?_pageBreak {s : RowShift} (hpush : s.pushDownPageBreaks = true) {brk : Element}
    {row : Nat} (h : breakId? brk = some row)
    (hmax : row + (if s.anchor < row then s.rows else 0) ≤ Text.max32) :
    breakId? (Move.pageBreak (.down s) brk) =
      some (row + if s.anchor < row then s.rows else 0) := by
  -- The number of the break is read, and written again if it lies below.
  have hid : (brk.attr? "id").bind natural32? = some row := h
  by_cases hrows : s.rows = 0
  · have hstay : Move.pageBreak (.down s) = id := if_neg fun hmoves => hmoves.1 hrows
    rw [hstay, hrows, ite_self]
    exact h
  · have hmove : Move.pageBreak (.down s) = s.shiftBreak := if_pos ⟨hrows, hpush⟩
    rw [hmove, RowShift.shiftBreak, hid]
    dsimp only
    split
    · rename_i hbelow
      rw [if_pos hbelow] at hmax
      rw [breakId?, Element.attr?_setAttr_self, Option.bind_some, natural32?,
        Text.toList_toString, Text.add32_of_le hmax]
      exact Text.natural?_numeral hmax
    · exact h

/-! ### Ends of a range -/

/-- Rules that leave a range alone come first. -/
theorem Follows.of_stay {rules rules' : List (RangeRef → Option RangeRef)} {r r' : RangeRef}
    (h : ∀ rule ∈ rules, rule r = none) (hrest : Follows rules' r r') :
    Follows (rules ++ rules') r r' := by
  induction rules with
  | nil => exact hrest
  | cons rule rules ih =>
    exact .stay (h rule List.mem_cons_self) (ih fun x hx => h x (List.mem_cons_of_mem _ hx))

/-- The two ends of a range move down by different distances, and nothing else changes. -/
structure Stretched (r r' : RangeRef) (top bottom : Nat) : Prop where
  start : r.start.MovedBy r'.start 0 top
  stop : r.stop.MovedBy r'.stop 0 bottom

theorem Stretched.refl (r : RangeRef) : Stretched r r 0 0 := ⟨.refl _, .refl _⟩

theorem Stretched.trans {r r' r'' : RangeRef} {top top' bottom bottom' : Nat}
    (h : Stretched r r' top bottom) (h' : Stretched r' r'' top' bottom') :
    Stretched r r'' (top + top') (bottom + bottom') where
  start := by
    have := h.start.trans h'.start
    rwa [← Int.natCast_add] at this
  stop := by
    have := h.stop.trans h'.stop
    rwa [← Int.natCast_add] at this

/-- Where the rows inserted below a row take a range of the sheet, if page breaks are pushed down:
each of its ends moves if it lies below the row. -/
theorem follows_down {s : RowShift} (hpush : s.pushDownPageBreaks = true) {r : RangeRef}
    (hread : r.Readable) (hsheet : r.start.sheetName? = some s.sheetName)
    (hle : r.start.row ≤ r.stop.row)
    (hmax : s.anchor < r.stop.row → r.stop.row + s.rows ≤ maxRows) :
    ∃ r₁ : RangeRef, Stretched r r₁ (if s.anchor < r.start.row then s.rows else 0)
        (if s.anchor < r.stop.row then s.rows else 0) ∧ r₁.Readable ∧
      ∀ rules r', Follows rules r₁ r' → Follows (Move.named? (.down s) :: rules) r r' := by
  have hcols := hread.start.col_pos
  have hcols' := hread.stop.col_pos
  have hcole := hread.start.col_le
  have hcole' := hread.stop.col_le
  have hrow := hread.start.row_pos
  by_cases hrows : s.rows = 0
  · -- No rows are inserted.
    refine ⟨r, ?_, hread, fun rules r' h => .stay (if_pos hrows) h⟩
    rw [hrows, ite_self, ite_self]
    exact .refl r
  · have hrule : Move.named? (.down s) r = s.movedName? r := if_neg hrows
    by_cases hstart : s.anchor < r.start.row
    · -- Both ends lie below the row.
      have hstop : s.anchor < r.stop.row := by omega
      have hmax' := hmax hstop
      have hmoved : r.start.MovedBy (r.start.offset 0 s.rows) 0 s.rows :=
        CellRef.movedBy_offset _ (by omega) (by omega) (by omega) (by omega)
      have hmoved' : r.stop.MovedBy (r.stop.offset 0 s.rows) 0 s.rows :=
        CellRef.movedBy_offset _ (by omega) (by omega) (by omega) (by omega)
      have hread₁ : (r.offset 0 s.rows).Readable :=
        ⟨hmoved.readable hread.start (by omega) (by omega) (by omega) (by omega),
          hmoved'.readable hread.stop (by omega) (by omega) (by omega) (by omega), hread.colon⟩
      rw [if_pos hstart, if_pos hstop]
      refine ⟨r.offset 0 s.rows, ⟨hmoved, hmoved'⟩, hread₁, fun rules r' h => .move ?_ hread₁ ?_ h⟩
      · rw [hrule, RowShift.movedName?, if_pos hstart]
      · intro heq
        show r.start.offset 0 s.rows = r.stop.offset 0 s.rows
        rw [heq]
    · rw [if_neg hstart]
      by_cases hstop : s.anchor < r.stop.row
      · -- Only the end lies below the row.
        have hmax' := hmax hstop
        have hmoved : r.stop.MovedBy (r.stop.offset 0 s.rows) 0 s.rows :=
          CellRef.movedBy_offset _ (by omega) (by omega) (by omega) (by omega)
        have hread₁ : RangeRef.Readable ⟨r.start, r.stop.offset 0 s.rows⟩ :=
          ⟨hread.start, hmoved.readable hread.stop (by omega) (by omega) (by omega) (by omega),
            hread.colon⟩
        rw [if_pos hstop]
        refine ⟨⟨r.start, r.stop.offset 0 s.rows⟩, ⟨.refl _, hmoved⟩, hread₁,
          fun rules r' h => .move ?_ hread₁ ?_ h⟩
        · rw [hrule, RowShift.movedName?, if_neg hstart, if_pos ⟨hpush, hstop, hsheet⟩]
        · -- A single cell does not lie on both sides of the row.
          intro heq
          rw [heq] at hstart
          exact absurd hstop hstart
      · rw [if_neg hstop]
        refine ⟨r, .refl r, hread, fun rules r' h => .stay ?_ h⟩
        rw [hrule, RowShift.movedName?, if_neg hstart, if_neg fun hmoves => hstop hmoves.2.1]

end Layout

namespace Fill

open Layout (Move Follows Stretched breakId? pageBreaks nameRange? nameText named_foldl_breaks
  attributes_moveNames)
open Xml (Element)

variable {values : Substitutions}

/-! ### Where a source row stands -/

/-- Where a source row stands when some rows are still to be visited: rows that were generated for
visited rows above it have moved it down. Once a visited row is not above it, none to come is. -/
structure Stands (visits : List RowVisit) (above row now : Nat) : Prop where
  le : now ≤ row + above
  eq : ∀ v ∈ visits, v.number < row → now = row + above

/-- Before the pass a row stands where the source has it. -/
theorem Stands.source (visits : List RowVisit) (row : Nat) : Stands visits 0 row row :=
  ⟨Nat.le_refl _, fun _ _ _ => rfl⟩

section

variable {v : RowVisit} {vs : List RowVisit} {above row now : Nat}

/-- A row that is found below the one at hand is below it in the source. -/
theorem Stands.anchor_lt_iff (h : Stands (v :: vs) above row now) :
    v.number + above < now ↔ v.number < row := by
  constructor
  · intro hlt
    have := h.le
    omega
  · intro hlt
    have := h.eq v List.mem_cons_self hlt
    omega

/-- The row at hand moves what is below it. -/
theorem Stands.step (h : Stands (v :: vs) above row now) (hlt : ∀ w ∈ vs, v.number < w.number)
    (rows : Nat) :
    Stands vs (above + rows) row (now + if v.number < row then rows else 0) := by
  by_cases hv : v.number < row
  · have := h.eq v List.mem_cons_self hv
    rw [if_pos hv]
    exact ⟨by omega, fun w hw hw' => by omega⟩
  · have := h.le
    rw [if_neg hv]
    refine ⟨by omega, fun w hw hw' => ?_⟩
    have := hlt w hw
    omega

end

/-! ### A whole pass -/

/-- Cells that insert no columns move no name. -/
private theorem named?_rightMoves {number : Nat} {inserted : Int} {cells : List CellVisit}
    (hcols : ∀ c ∈ cells, c.net values = 0) (r : RangeRef) :
    ∀ rule ∈ (rightMoves values number inserted cells).map Move.named?, rule r = none := by
  induction cells generalizing inserted with
  | nil => simp [rightMoves]
  | cons c cs ih =>
    rw [rightMoves, List.map_cons, List.forall_mem_cons]
    refine ⟨if_neg fun hmoves => ?_, ih fun c' hc' => hcols c' (List.mem_cons_of_mem _ hc')⟩
    exact hmoves.1 (hcols c List.mem_cons_self)

/-- Where a pass takes a range of its sheet, if page breaks are pushed down and no columns are
inserted: each of its ends goes where its row goes. -/
theorem follows_sheetMoves {sheetName : String} {above top bottom : Nat} {visits : List RowVisit}
    {r : RangeRef} (hinc : (visits.map RowVisit.number).Pairwise (· < ·))
    (hcols : ∀ v ∈ visits, ∀ c ∈ v.cells, c.net values = 0)
    (hread : r.Readable) (hsheet : r.start.sheetName? = some sheetName)
    (hstart : Stands visits above top r.start.row) (hstop : Stands visits above bottom r.stop.row)
    (hle : top ≤ bottom) (hrow : r.start.row ≤ r.stop.row)
    (hmax : r.stop.row + rowsAbove values visits bottom ≤ maxRows) :
    ∃ r' : RangeRef,
      Stretched r r' (rowsAbove values visits top) (rowsAbove values visits bottom) ∧
      Follows ((sheetMoves values true sheetName above visits).map Move.named?) r r' := by
  induction visits generalizing above r with
  | nil => exact ⟨r, .refl r, .nil r⟩
  | cons v vs ih =>
    have hlt : ∀ w ∈ vs, v.number < w.number := fun w hw =>
      (List.pairwise_cons.1 hinc).1 _ (List.mem_map_of_mem hw)
    rw [rowsAbove_cons] at hmax
    -- Both ends are compared with the row at hand as the source has them.
    have hdown := Layout.follows_down (s := {
        anchor := v.number + above, rows := v.generated values
        pushDownPageBreaks := true, sheetName }) rfl hread hsheet hrow (fun hbelow => by
      rw [hstop.anchor_lt_iff] at hbelow
      rw [if_pos hbelow] at hmax
      dsimp only
      omega)
    dsimp only at hdown
    simp only [hstart.anchor_lt_iff, hstop.anchor_lt_iff] at hdown
    obtain ⟨r₁, hmoved, hread₁, hfollows⟩ := hdown
    -- After the row both ends stand where the rows that are left find them.
    have hstart₁ : Stands vs (above + v.generated values) top r₁.start.row := by
      have hstep := hstart.step hlt (v.generated values)
      have := hmoved.start.row
      rwa [show r₁.start.row = r.start.row + if v.number < top then v.generated values else 0 by
        omega]
    have hstop₁ : Stands vs (above + v.generated values) bottom r₁.stop.row := by
      have hstep := hstop.step hlt (v.generated values)
      have := hmoved.stop.row
      rwa [show r₁.stop.row = r.stop.row + if v.number < bottom then v.generated values else 0 by
        omega]
    have hsheet₁ : r₁.start.sheetName? = some sheetName := by
      rw [← hsheet, CellRef.sheetName?, CellRef.sheetName?, hmoved.start.sheet]
    have hrow₁ : r₁.start.row ≤ r₁.stop.row := by
      have := hmoved.start.row
      have := hmoved.stop.row
      by_cases hv : v.number < top
      · rw [if_pos hv] at *
        rw [if_pos (show v.number < bottom by omega)] at *
        omega
      · rw [if_neg hv] at *
        omega
    have hmax₁ : r₁.stop.row + rowsAbove values vs bottom ≤ maxRows := by
      have := hmoved.stop.row
      omega
    obtain ⟨r', hmoved', hfollows'⟩ := ih (List.pairwise_cons.1 hinc).2
      (fun w hw => hcols w (List.mem_cons_of_mem _ hw)) hread₁ hsheet₁ hstart₁ hstop₁ hrow₁ hmax₁
    refine ⟨r', ?_, ?_⟩
    · rw [rowsAbove_cons, rowsAbove_cons]
      exact hmoved.trans hmoved'
    · rw [sheetMoves, rowMoves, List.append_assoc, List.map_append]
      exact .of_stay (named?_rightMoves (hcols v List.mem_cons_self) r) (hfollows _ _ hfollows')

/-- Cells move no page break. -/
private theorem pageBreak_rightMoves {number : Nat} {inserted : Int} {cells : List CellVisit}
    (brk : Element) :
    (rightMoves values number inserted cells).foldl (fun b m => m.pageBreak b) brk = brk := by
  induction cells generalizing inserted with
  | nil => rfl
  | cons c cs ih => exact ih

/-- Where a pass takes a manual page break, if page breaks are pushed down. -/
theorem breakId?_sheetMoves {sheetName : String} {above id now : Nat} {visits : List RowVisit}
    {brk : Element} (hinc : (visits.map RowVisit.number).Pairwise (· < ·))
    (hnow : Stands visits above id now) (hbrk : breakId? brk = some now)
    (hmax : now + rowsAbove values visits id ≤ Text.max32) :
    breakId? ((sheetMoves values true sheetName above visits).foldl
      (fun b m => m.pageBreak b) brk) = some (now + rowsAbove values visits id) := by
  induction visits generalizing above now brk with
  | nil => exact hbrk
  | cons v vs ih =>
    have hlt : ∀ w ∈ vs, v.number < w.number := fun w hw =>
      (List.pairwise_cons.1 hinc).1 _ (List.mem_map_of_mem hw)
    rw [rowsAbove_cons, ← Nat.add_assoc] at hmax ⊢
    rw [sheetMoves, rowMoves, List.foldl_append, List.foldl_append, pageBreak_rightMoves]
    refine ih (List.pairwise_cons.1 hinc).2 (hnow.step hlt (v.generated values)) ?_ hmax
    -- The break is compared with the row at hand as the source has it.
    have hbelow := Layout.breakId?_pageBreak (s := {
      anchor := v.number + above, rows := v.generated values
      pushDownPageBreaks := true, sheetName }) rfl hbrk
    simp only [hnow.anchor_lt_iff] at hbelow
    exact hbelow (by omega)

/-- Where page breaks are not pushed down, no step of a pass moves one. -/
private theorem breaks_sheetMoves (sheetName : String) (above : Nat) (visits : List RowVisit)
    (breaks : Element) :
    (sheetMoves values false sheetName above visits).foldl (fun e m => m.breaks e) breaks =
      breaks := by
  -- Moves right concern no breaks.
  have hright : ∀ (number : Nat) (inserted : Int) (cells : List CellVisit),
      (rightMoves values number inserted cells).foldl (fun e m => m.breaks e) breaks = breaks := by
    intro number inserted cells
    induction cells generalizing inserted with
    | nil => rfl
    | cons c cs ih => exact ih _
  induction visits generalizing above with
  | nil => rfl
  | cons v vs ih =>
    rw [sheetMoves, rowMoves, List.foldl_append, List.foldl_append, hright]
    simpa [Move.breaks] using ih _

/-- Whether no cell inserts columns, as where no list is laid out to the right. -/
def KeepsColumns (values : Substitutions) (visits : List RowVisit) : Prop :=
  ∀ v ∈ visits, ∀ c ∈ v.cells, c.net values = 0

instance (values : Substitutions) (visits : List RowVisit) :
    Decidable (KeepsColumns values visits) :=
  inferInstanceAs (Decidable (∀ v ∈ visits, ∀ c ∈ v.cells, c.net values = 0))

/-- What becomes of a defined name for a range of the sheet that ends no row above its start and
stays inside the sheet: both ends go where their rows go, and nothing else of it changes. -/
structure RangeTracks (sheetName : String) (values : Substitutions) (visits : List RowVisit)
    (name name' : Element) : Prop where
  attributes : name'.attributes = name.attributes
  tracks : ∀ r, nameRange? name = some r → r.start.sheetName? = some sheetName →
    r.start.row ≤ r.stop.row → r.stop.row + rowsAbove values visits r.stop.row ≤ maxRows →
    ∃ r', Stretched r r' (rowsAbove values visits r.start.row)
        (rowsAbove values visits r.stop.row) ∧
      nameRange? name' = some r' ∧
      RangeRef.isWritten name'.text = RangeRef.isWritten name.text ∧
      (name'.text = name.text ∨ name'.text = nameText (RangeRef.isWritten name.text) r')

/-- What becomes of a manual page break that stays inside the sheet. -/
def BreakTracks (values : Substitutions) (visits : List RowVisit) (brk brk' : Element) : Prop :=
  ∀ row, breakId? brk = some row → row + rowsAbove values visits row ≤ maxRows →
    breakId? brk' = some (row + rowsAbove values visits row)

/-- Where page breaks are pushed down, the defined names for ranges of the sheet and its manual page
breaks go where their rows go; else no page break moves. -/
theorem print_ranges_track_rows {options : FillOptions} {files : ImageFiles} {p q : Pass}
    (hp : p.Fresh) (hrun : p.run options files values = .ok q)
    (hinc : (sourceNumbers 0 (sourceRows p.sheet.doc.root)).Pairwise (· < ·))
    (hfit : RowsFit values 0 (p.visits options files values)) :
    Visited p.strings q.strings (sourceRows p.sheet.doc.root) (p.visits options files values) ∧
    (options.pushDownPageBreaks = true →
      (KeepsColumns values (p.visits options files values) →
        List.Forall₂ (RangeTracks p.sheet.name values (p.visits options files values))
          p.workbook.definedNames q.workbook.definedNames) ∧
      List.Forall₂ (BreakTracks values (p.visits options files values))
        (pageBreaks p.sheet.doc.root) (pageBreaks q.sheet.doc.root)) ∧
    (options.pushDownPageBreaks = false →
      q.sheet.doc.root.child? "rowBreaks" = p.sheet.doc.root.child? "rowBreaks") := by
  obtain ⟨blocks, hsheet⟩ := sheetRun_of_run hp hrun
  generalize p.visits options files values = visits at hsheet hfit ⊢
  have hinc' : (visits.map RowVisit.number).Pairwise (· < ·) := hsheet.visited.numbers ▸ hinc
  have hnames := (hsheet.outcome hfit).names
  have hbreaks := (hsheet.outcome hfit).breaks
  refine ⟨hsheet.visited, fun hpush => ⟨fun hcols => ?_, ?_⟩, fun hpush => ?_⟩
  -- With the option, each name follows all moves, and so does each break.
  · rw [hpush] at hnames
    rw [hnames]
    refine List.forall₂_map_right_iff.2 (List.forall₂_same.2 fun e _ => ?_)
    refine ⟨attributes_moveNames _ e, fun r hr hname hrow hmax => ?_⟩
    obtain ⟨r', hmoved, hfollows⟩ := follows_sheetMoves hinc' hcols
      (RangeRef.readable_of_parse? hr) hname (.source visits _) (.source visits _) hrow hrow hmax
    obtain ⟨hrange, hwritten, htext⟩ := Layout.nameRange?_of_follows hfollows hr
    exact ⟨r', hmoved, hrange, hwritten, htext⟩
  · rw [hpush] at hbreaks
    unfold pageBreaks
    rw [hbreaks]
    cases p.sheet.doc.root.child? "rowBreaks" with
    | none => exact .nil
    | some breaks =>
      simp only [Option.map_some, named_foldl_breaks]
      refine List.forall₂_map_right_iff.2 (List.forall₂_same.2 fun brk _ => ?_)
      intro row hbrk hmax
      exact breakId?_sheetMoves hinc' (.source visits row) hbrk
        (Nat.le_trans hmax limits_le_max32.2)
  -- Without it no break moves.
  · rw [hbreaks, hpush]
    simp only [breaks_sheetMoves]
    exact Option.map_id'

/-- A sheet of three rows with a table on the second and a page break below the last, and a name for
all of it. -/
private def printPass : Pass :=
  { samplePass with
    sheet := { samplePass.sheet with doc := { root := .ofChildren "worksheet" [] [
      .ofChildren "sheetData" [] [
        .ofChildren "row" [("r", "1")] [], .ofChildren "row" [("r", "2")] [
          sampleCell [("r", "A2")] "0"],
        .ofChildren "row" [("r", "3")] []],
      .ofChildren "rowBreaks" [] [.ofChildren "brk" [("id", "3")] []]] } }
    workbook := { samplePass.workbook with doc := { root := .ofChildren "workbook" [] [
      .ofChildren "definedNames" [] [.ofText "definedName" "Plan!$A$1:$B$3"]] } } }

/-- The name for `Plan!$A$1:$B$3` ends one row further down, and so does the page break. -/
theorem print_ranges_track_rows_sample :
    ∃ q, printPass.run { pushDownPageBreaks := true } (fun _ => none) sampleValues = .ok q ∧
      (∃ name ∈ q.workbook.definedNames, ∃ r, nameRange? name = some r ∧
        Stretched ⟨⟨some "Plan", 1, 1, true, true⟩, ⟨none, 2, 3, true, true⟩⟩ r 0 1) ∧
      ∃ brk ∈ pageBreaks q.sheet.doc.root, breakId? brk = some 4 := by
  have hok : (printPass.run { pushDownPageBreaks := true } (fun _ => none) sampleValues).isOk =
      true := by decide +kernel
  cases hq : printPass.run { pushDownPageBreaks := true } (fun _ => none) sampleValues with
  | error e =>
    rw [hq] at hok
    cases hok
  | ok q =>
    obtain ⟨-, hpushed, -⟩ := print_ranges_track_rows ⟨rfl, rfl⟩ hq (by decide +kernel)
      (by decide +kernel)
    obtain ⟨hranges, hbreaks⟩ := hpushed rfl
    have hnames := hranges (by decide +kernel)
    -- The sample has a name and a break.
    have hname : 0 < q.workbook.definedNames.length := by
      rw [← hnames.length_eq]
      decide +kernel
    have hbreak : 0 < (pageBreaks q.sheet.doc.root).length := by
      rw [← hbreaks.length_eq]
      decide +kernel
    obtain ⟨r, hmoved, hread, -⟩ := (hnames.get (by decide +kernel) hname).tracks
      ⟨⟨some "Plan", 1, 1, true, true⟩, ⟨none, 2, 3, true, true⟩⟩ (by decide +kernel)
      (by decide +kernel) (by decide) (by decide +kernel)
    -- A row is generated above row 3, and none above the others.
    have habove : ∀ row ≤ 3, rowsAbove sampleValues
        (printPass.visits { pushDownPageBreaks := true } (fun _ => none) sampleValues) row =
          if row = 3 then 1 else 0 := by decide +kernel
    rw [habove 1 (by decide), habove 3 (by decide)] at hmoved
    have hmoves := hbreaks.get (by decide +kernel) hbreak 3 (by decide +kernel) (by decide +kernel)
    rw [habove 3 (by decide)] at hmoves
    exact ⟨q, rfl, ⟨_, List.get_mem _ ⟨0, hname⟩, r, hread, hmoved⟩,
      _, List.get_mem _ ⟨0, hbreak⟩, hmoves⟩

end Fill

end SheetTemplate
