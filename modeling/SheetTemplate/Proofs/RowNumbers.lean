import SheetTemplate.Proofs.Insertions

/-!
# The numbers of rows

If the numbers of the source rows increase, so do the numbers of the rows that come out of a pass.
Each source row is moved down by the rows generated above it, and the rows generated for it take
the numbers right after its own.

## Key results

- `finishedNumbers`: the numbers in order, without a gap between a row and those generated for it
- `rows_numbered`: the rows of a pass have these numbers
-/

namespace SheetTemplate.Fill

open Xml (Element)

variable {values : Substitutions}

/-! ### Numbers -/

/-- The numbers of the finished rows in order. -/
def finishedNumbers (values : Substitutions) (visits : List RowVisit) : List Nat :=
  visits.flatMap fun v => List.range' (finishedNumber values visits v) (v.generated values + 1)

/-- More rows are above a row further down. -/
theorem rowsAbove_mono (values : Substitutions) (visits : List RowVisit) {m n : Nat}
    (h : m ≤ n) : rowsAbove values visits m ≤ rowsAbove values visits n := by
  induction visits with
  | nil => exact Nat.le_refl _
  | cons v vs ih =>
    rw [rowsAbove_cons, rowsAbove_cons]
    split <;> split <;> omega

/-- The rows below a row are also below those generated for it. -/
theorem rowsAbove_add_generated_le (values : Substitutions) {visits : List RowVisit} {v : RowVisit}
    (hv : v ∈ visits) {n : Nat} (h : v.number < n) :
    rowsAbove values visits v.number + v.generated values ≤ rowsAbove values visits n := by
  induction visits with
  | nil => simp at hv
  | cons w vs ih =>
    rw [rowsAbove_cons, rowsAbove_cons]
    rcases List.mem_cons.1 hv with rfl | hv
    · have := rowsAbove_mono values vs (Nat.le_of_lt h)
      rw [if_neg (Nat.lt_irrefl _), if_pos h]
      omega
    · have := ih hv
      split <;> split <;> omega

/-- The numbers of the finished rows increase. -/
theorem pairwise_finishedNumbers {visits : List RowVisit}
    (hinc : (visits.map RowVisit.number).Pairwise (· < ·)) :
    (finishedNumbers values visits).Pairwise (· < ·) := by
  unfold finishedNumbers
  rw [List.pairwise_flatMap]
  refine ⟨fun v _ => List.pairwise_lt_range', ?_⟩
  -- Two different rows: the rows generated for the upper one are counted above the lower one.
  refine (List.pairwise_map.1 hinc).imp_of_mem fun {v w} hv _ hlt => ?_
  intro m hm n hn
  have hbelow := rowsAbove_add_generated_le values hv hlt
  have hm := (List.mem_range'_1.1 hm).2
  have hn := (List.mem_range'_1.1 hn).1
  unfold finishedNumber at hm hn
  omega

/-! ### Rows -/

/-- What comes out of a row: the row with its number, and the rows generated for it, which are
numbered from there on. -/
structure RowNumbered (values : Substitutions) (visits : List RowVisit) (v : RowVisit)
    (block : Element × List Element) : Prop where
  row : Renumbered v.row (finishedNumber values visits v) block.1
  generated : block.2.length = v.generated values
  newRows : ∀ (k : Nat) (e : Element), block.2[k]? = some e →
    Renumbered v.row (finishedNumber values visits v + (k + 1)) e

/-- A row that is done is numbered, with the generated rows after it. -/
private theorem rowNumbered_of_rowDone {strings : StringTable} {copied : Bool}
    {visits : List RowVisit} {v : RowVisit} {block : Element × List Element}
    (h : RowDone values strings copied (finishedNumber values visits v) v block)
    (hfit : finishedNumber values visits v + v.generated values ≤ Text.max32) :
    RowNumbered values visits v (uncachedBlock block) := by
  refine ⟨renumbered_uncachedRow h.renumbered, ?_, ?_⟩
  · exact (List.length_map _).trans h.generated
  · intro k e he
    simp only [uncachedBlock, List.getElem?_map] at he
    obtain ⟨e', he', rfl⟩ := Option.map_eq_some_iff.1 he
    obtain ⟨-, hnew⟩ := h.getElem? hfit he'
    exact renumbered_uncachedRow ⟨hnew.name, hnew.number, fun key hr hs =>
      (hnew.attr key hr hs).trans (by simp [bareRow, Element.attr?_setAttr_of_ne v.row hr])⟩

/-- The numbers of one block. -/
private theorem RowNumbered.attr?_eq {visits : List RowVisit} {v : RowVisit}
    {block : Element × List Element} (h : RowNumbered values visits v block) :
    (block.1 :: block.2).map (·.attr? "r") =
      (List.range' (finishedNumber values visits v) (v.generated values + 1)).map
        fun n => some (toString n) := by
  rw [List.range'_succ, List.map_cons, List.map_cons, h.row.number, ← h.generated]
  congr 1
  refine List.ext_getElem? fun k => ?_
  rw [List.getElem?_map, List.getElem?_map]
  -- Generated row `k` has the number that is `k + 1` after that of the row.
  cases hk : block.2[k]? with
  | none =>
    rw [List.getElem?_eq_none_iff] at hk
    rw [List.getElem?_eq_none (by simpa using hk)]
    rfl
  | some e =>
    have hlt := (List.getElem?_eq_some_iff.1 hk).1
    rw [List.getElem?_range' hlt, Option.map_some, Option.map_some, (h.newRows k e hk).number]
    congr 3
    omega

/-- Row numbers of a pass whose rows have numbers of 32 bits: every source row comes out once, moved
down by the rows generated above it, and followed by the rows generated for it. The numbers of all
rows increase. -/
theorem rows_numbered {options : FillOptions} {files : ImageFiles} {p q : Pass} (hp : p.Fresh)
    (hrun : p.run options files values = .ok q)
    (hinc : (sourceNumbers 0 (sourceRows p.sheet.doc.root)).Pairwise (· < ·))
    (hfit : RowsFit values 0 (p.visits options files values)) :
    Visited p.strings q.strings (sourceRows p.sheet.doc.root) (p.visits options files values) ∧
      (finishedNumbers values (p.visits options files values)).Pairwise (· < ·) ∧
      (sourceRows q.sheet.doc.root).map (·.attr? "r") =
        (finishedNumbers values (p.visits options files values)).map (fun n => some (toString n)) ∧
      ∃ blocks, sourceRows q.sheet.doc.root = blocks.flatMap (fun b => b.1 :: b.2) ∧
        List.Forall₂ (RowNumbered values (p.visits options files values))
          (p.visits options files values) blocks := by
  obtain ⟨blocks, hsheet⟩ := sheetRun_of_run hp hrun
  generalize p.visits options files values = visits at hsheet hfit ⊢
  have hnumbers : (visits.map RowVisit.number).Pairwise (· < ·) := by
    rw [hsheet.visited.numbers]
    exact hinc
  have hblocks : List.Forall₂ (RowNumbered values visits) visits (blocks.map uncachedBlock) :=
    List.forall₂_map_right_iff.2 (forall₂_imp_of_mem
      (hsheet.forall₂_of_fit hnumbers hfit) fun v hv b hdone =>
        rowNumbered_of_rowDone hdone (hfit.of_mem hnumbers hv))
  -- Row by row, the numbers of a block are the row's own and those right after it.
  have hattr : ∀ {vs : List RowVisit} {bs : List (Element × List Element)},
      List.Forall₂ (RowNumbered values visits) vs bs →
      (bs.flatMap fun b => b.1 :: b.2).map (·.attr? "r") =
        (vs.flatMap fun v => List.range' (finishedNumber values visits v)
          (v.generated values + 1)).map fun n => some (toString n) := by
    intro vs bs h
    induction h with
    | nil => rfl
    | cons hblock _ ih =>
      rw [List.flatMap_cons, List.flatMap_cons, List.map_append, List.map_append, ih,
        hblock.attr?_eq]
  refine ⟨hsheet.visited, pairwise_finishedNumbers hnumbers, ?_, _, hsheet.rows, hblocks⟩
  rw [hsheet.rows]
  exact hattr hblocks

/-- The numbers of the sample are 1, 2, 3. -/
theorem rows_numbered_sample : ∃ q, samplePass.run {} (fun _ => none) sampleValues = .ok q ∧
    (sourceRows q.sheet.doc.root).map (·.attr? "r") = [some "1", some "2", some "3"] := by
  obtain ⟨q, hq⟩ := samplePass_runs
  obtain ⟨-, -, hnumbers, -⟩ := rows_numbered samplePass_fresh hq (by decide +kernel)
    (by decide +kernel)
  exact ⟨q, hq, hnumbers.trans (by decide +kernel)⟩

/-- A sheet with a table of three elements on its first row, and with the last row that has a number
of 32 bits. -/
private def lastRowPass : Pass :=
  { samplePass with
    sheet := { samplePass.sheet with doc := { root := .ofChildren "worksheet" [] [
      .ofChildren "sheetData" [] [
        .ofChildren "row" [("r", "1")] [sampleCell [("r", "A1")] "0"],
        .ofChildren "row" [("r", "4294967295")] []]] } } }

private def lastRowValues : Substitutions :=
  [("t", .list [.record [("k", .text "p")], .record [("k", .text "q")],
    .record [("k", .text "r")]])]

/-- Past the last number of 32 bits rows begin again: the last row is moved down by two rows, and
comes out as a second row one. -/
theorem row_numbers_begin_again :
    ¬∀ (options : FillOptions) (files : ImageFiles) (values : Substitutions) (p q : Pass),
      p.Fresh → p.run options files values = .ok q →
        (sourceNumbers 0 (sourceRows p.sheet.doc.root)).Pairwise (· < ·) →
        (sourceRows q.sheet.doc.root).map (·.attr? "r") =
          (finishedNumbers values (p.visits options files values)).map
            fun n => some (toString n) := by
  intro hall
  obtain ⟨q, hq, hrows⟩ := exists_eq_ok
    (x := lastRowPass.run {} (fun _ => none) lastRowValues)
    (f := fun q => (sourceRows q.sheet.doc.root).map (·.attr? "r"))
    (b := [some "1", some "2", some "3", some "1"]) (by decide +kernel)
  have hnumbers := hall _ _ _ _ _ ⟨rfl, rfl⟩ hq (by decide +kernel)
  rw [hrows] at hnumbers
  exact absurd hnumbers (by decide +kernel)

end SheetTemplate.Fill
