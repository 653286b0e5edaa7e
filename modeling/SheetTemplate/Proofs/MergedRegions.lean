import SheetTemplate.Proofs.RegionTracking

/-!
# Merged regions follow their first cell

The list of merged regions is changed step by step, and what a step repeats is subject to the steps
after it. Still every region can be looked at by itself: up to their order, the regions after a pass
are what becomes of each source region alone.

## Key results

- `foldl_stepMerges_of_leads`: what becomes of one region
- `merged_regions_follow`: the merged regions of a pass
-/

namespace SheetTemplate

open Layout
open Xml (Element)

namespace Layout

/-! ### The list of merged regions under many steps -/

/-- The regions of a sheet are those entries of the list that can be read. -/
theorem mergedRegions_eq (sheet : Element) :
    mergedRegions sheet = (mergeCells sheet).filterMap refRange? := by
  unfold mergedRegions mergeCells
  cases sheet.child? "mergeCells" <;> rfl

/-- An empty list stays empty. -/
private theorem foldl_stepMerges_nil (moves : List Move) : moves.foldl stepMerges [] = [] := by
  induction moves with
  | nil => rfl
  | cons m moves ih => exact ih

/-- What the moves do to the element is what the steps do to its entries. -/
theorem named_foldl_merges (moves : List Move) (merges : Element) :
    (moves.foldl (fun e m => m.merges e) merges).named "mergeCell" =
      moves.foldl stepMerges (merges.named "mergeCell") := by
  induction moves generalizing merges with
  | nil => rfl
  | cons m moves ih => rw [List.foldl_cons, List.foldl_cons, ih, named_merges]

/-- A sheet that makes moves changes its list of merged regions step by step. -/
theorem mergeCells_eq_foldl {sheet sheet' : Element} {moves : List Move}
    (h : sheet'.child? "mergeCells" =
      (sheet.child? "mergeCells").map fun e => moves.foldl (fun e m => m.merges e) e) :
    mergeCells sheet' = moves.foldl stepMerges (mergeCells sheet) := by
  unfold mergeCells
  rw [h]
  cases sheet.child? "mergeCells" with
  | none => exact (foldl_stepMerges_nil moves).symm
  | some merges => exact named_foldl_merges moves merges

/-- A step on two lists together is the step on each, but for the order of the copies. -/
private theorem perm_stepMerges_append (regions regions' : List Element) (m : Move) :
    (stepMerges (regions ++ regions') m).Perm (stepMerges regions m ++ stepMerges regions' m) := by
  simp only [stepMerges, List.map_append, List.flatMap_append, List.append_assoc]
  -- The copies of the first list and the moved regions of the second change places.
  apply List.Perm.append_left
  rw [← List.append_assoc, ← List.append_assoc]
  exact List.perm_append_comm.append_right _

/-- The order before does not matter but for the order after. -/
private theorem perm_foldl_stepMerges {regions regions' : List Element} (moves : List Move)
    (h : regions.Perm regions') :
    (moves.foldl stepMerges regions).Perm (moves.foldl stepMerges regions') := by
  induction moves generalizing regions regions' with
  | nil => exact h
  | cons m moves ih => exact ih ((h.map _).append (h.flatMap_right _))

/-- So do many steps. -/
private theorem perm_foldl_stepMerges_append (moves : List Move) (regions regions' : List Element) :
    (moves.foldl stepMerges (regions ++ regions')).Perm
      (moves.foldl stepMerges regions ++ moves.foldl stepMerges regions') := by
  induction moves generalizing regions regions' with
  | nil => exact .refl _
  | cons m moves ih =>
    exact (perm_foldl_stepMerges moves (perm_stepMerges_append regions regions' m)).trans (ih _ _)

/-- Up to their order, regions come out as if each were alone. -/
theorem perm_foldl_stepMerges_flatMap (moves : List Move) (regions : List Element) :
    (moves.foldl stepMerges regions).Perm
      (regions.flatMap fun e => moves.foldl stepMerges [e]) := by
  induction regions with
  | nil => rw [foldl_stepMerges_nil, List.flatMap_nil]
  | cons e regions ih =>
    rw [List.flatMap_cons, ← List.singleton_append]
    exact (perm_foldl_stepMerges_append moves [e] regions).trans (ih.append_left _)

/-! ### One region -/

/-- An element that steps neither move nor repeat. -/
def Unmoved (moves : List Move) (e : Element) : Prop :=
  ∀ m ∈ moves, moveRef m.region? e = e ∧ m.clones e = []

/-- A step repeats the element of a region on the regions it repeats the region on. -/
theorem clones_eq (m : Move) {e : Element} {r : RangeRef} (he : refRange? e = some r) :
    m.clones e = (m.copies r).map fun c => e.shallow.setAttr "ref" c.a1 := by
  cases m with
  | right anchor cols => rfl
  | down s =>
    simp only [Move.clones, RowShift.clones, he, Move.copies]
    split
    · rw [List.map_map]
      rfl
    · rfl

/-- What cannot be read is left alone. -/
theorem unmoved_of_none (moves : List Move) {e : Element} (he : refRange? e = none) :
    Unmoved moves e := by
  intro m _
  refine ⟨moveRef_of_none (by rw [he, Option.bind_none]), ?_⟩
  cases m with
  | right anchor cols => rfl
  | down s => simp [Move.clones, RowShift.clones, he]

/-- What no later step moves or repeats is left as it is. -/
theorem unmoved_of_settled {moves : List Move} {e : Element} {r : RangeRef}
    (he : refRange? e = some r) (h : Settled moves r) : Unmoved moves e := by
  intro m hm
  obtain ⟨hstay, hcopies⟩ := h m hm
  refine ⟨moveRef_of_none ?_, ?_⟩
  · rw [he, Option.bind_some, hstay]
  · rw [clones_eq m he, hcopies, List.map_nil]

/-- A step on a region before others that it leaves alone. -/
private theorem stepMerges_cons {m : Move} {e : Element} {regions : List Element}
    (h : ∀ c ∈ regions, moveRef m.region? c = c ∧ m.clones c = []) :
    stepMerges (e :: regions) m = moveRef m.region? e :: (regions ++ m.clones e) := by
  have hmap : regions.map (moveRef m.region?) = regions := by
    conv_rhs => rw [← List.map_id regions]
    exact List.map_congr_left fun c hc => (h c hc).1
  have hclones : regions.flatMap m.clones = [] :=
    List.flatMap_eq_nil_iff.2 fun c hc => (h c hc).2
  simp [stepMerges, hmap, hclones]

/-- What becomes of a region: it goes where the steps lead it, and the regions it is repeated on
stay where they are. -/
theorem foldl_stepMerges_of_leads {moves : List Move} {r r' : RangeRef} {copies : List RangeRef}
    (h : Leads moves r r' copies) {e : Element} (he : refRange? e = some r)
    (hread : ∀ c ∈ copies, c.Readable) (regions : List Element)
    (hregions : ∀ c ∈ regions, Unmoved moves c) :
    moves.foldl stepMerges (e :: regions) =
      moveRefs (moves.map Move.region?) e ::
        (regions ++ copies.map fun c => e.shallow.setAttr "ref" c.a1) := by
  -- Along the way of the region: it stays and is repeated, or it moves and has no copies.
  induction h generalizing e regions with
  | nil r => simp [moveRefs]
  | @stay m moves r r' copies hstay hsettled _ ih =>
    have hmove : moveRef m.region? e = e := moveRef_of_none (by rw [he, Option.bind_some, hstay])
    -- What the step repeats joins the regions that the later steps leave alone.
    have hrest : ∀ c ∈ regions ++ m.clones e, Unmoved moves c := by
      intro c hc
      rcases List.mem_append.1 hc with hc | hc
      · exact fun m' hm' => hregions c hc m' (List.mem_cons_of_mem _ hm')
      · rw [clones_eq m he] at hc
        obtain ⟨copy, hcopy, rfl⟩ := List.mem_map.1 hc
        exact unmoved_of_settled (refRange?_setAttr _ (hread copy (List.mem_append_left _ hcopy)))
          (hsettled copy hcopy)
    rw [List.foldl_cons, stepMerges_cons fun c hc => hregions c hc m (by simp), hmove,
      ih he (fun c hc => hread c (List.mem_append_right _ hc)) _ hrest, clones_eq m he,
      List.map_append, List.append_assoc, List.map_cons]
    simp only [moveRefs, List.foldl_cons, hmove]
  | @move m moves r r₁ r' copies hmoves hnone hread₁ _ _ ih =>
    have hmove : moveRef m.region? e = e.setAttr "ref" r₁.a1 := by
      simp [moveRef, he, hmoves]
    have hrange := refRange?_setAttr e hread₁
    -- A copy of the moved element has the attributes of a copy of the source, the range apart.
    have hshallow : ∀ text, (e.setAttr "ref" r₁.a1).shallow.setAttr "ref" text =
        e.shallow.setAttr "ref" text := fun text =>
      Element.setAttr_setAttr e.shallow "ref" r₁.a1 text
    rw [List.foldl_cons, stepMerges_cons fun c hc => hregions c hc m (by simp), clones_eq m he,
      hnone, List.map_nil, List.append_nil, hmove,
      ih hrange hread _ fun c hc m' hm' => hregions c hc m' (List.mem_cons_of_mem _ hm'),
      List.map_cons]
    simp only [moveRefs, List.foldl_cons, hmove, hshallow]

/-- Elements that no step concerns come out as they are. -/
theorem foldl_stepMerges_of_unmoved {moves : List Move} {e : Element} (h : Unmoved moves e) :
    moves.foldl stepMerges [e] = [e] := by
  induction moves with
  | nil => rfl
  | cons m moves ih =>
    obtain ⟨hmove, hclones⟩ := h m (by simp)
    have hstep : stepMerges [e] m = [e] := by simp [stepMerges, hmove, hclones]
    rw [List.foldl_cons, hstep]
    exact ih fun m' hm' => h m' (List.mem_cons_of_mem _ hm')

/-- A region comes out before what it is repeated on. -/
theorem foldl_stepMerges_cons (moves : List Move) (e : Element) (regions : List Element) :
    ∃ rest, moves.foldl stepMerges (e :: regions) =
      moveRefs (moves.map Move.region?) e :: rest := by
  induction moves generalizing e regions with
  | nil => exact ⟨regions, rfl⟩
  | cons m moves ih => exact ih (moveRef m.region? e) _

/-! ### The count -/

/-- Once rows were inserted, the count of the merged regions is right. -/
theorem counted_foldl_merges {moves : List Move} {merges : Element}
    (h : Counted merges ∨ ∃ s, .down s ∈ moves ∧ s.rows ≠ 0) :
    Counted (moves.foldl (fun e m => m.merges e) merges) := by
  -- The count is right from the first step that inserts rows on.
  induction moves generalizing merges with
  | nil =>
    rcases h with h | ⟨s, hs, -⟩
    · exact h
    · simp at hs
  | cons m moves ih =>
    apply ih
    rcases h with h | ⟨s, hs, hrows⟩
    · exact .inl (h.step m)
    · rcases List.mem_cons.1 hs with rfl | hs
      · exact .inl (counted_down s merges hrows)
      · exact .inr ⟨s, hs, hrows⟩

end Layout

namespace Fill

variable {values : Substitutions}

/-! ### The regions of a pass -/

/-- The region that a pass repeats a region on is inside the sheet as well. -/
structure RepeatsInside (values : Substitutions) (visits : List RowVisit) (r : RangeRef) : Prop
    extends StaysInside values visits r where
  copies : r.stop.row + rowsAbove values visits r.start.row +
    generatedAt values visits r.start.row ≤ maxRows

instance (values : Substitutions) (visits : List RowVisit) (r : RangeRef) :
    Decidable (RepeatsInside values visits r) :=
  decidable_of_iff
    (StaysInside values visits r ∧ r.stop.row + rowsAbove values visits r.start.row +
      generatedAt values visits r.start.row ≤ maxRows)
    ⟨fun h => ⟨h.1, h.2⟩, fun h => ⟨h.1, h.2⟩⟩

/-- The copies of a region on the rows below it, one for each row. -/
structure RepeatedBelow (e : Element) (r : RangeRef) (count : Nat) (copies : List Element) :
    Prop where
  length : copies.length = count
  copy : ∀ (k : Nat) (c : Element), copies[k]? = some c → ∃ r' : RangeRef,
    r.MovedBy r' 0 (k + 1 : Nat) ∧ refRange? c = some r' ∧ c = e.shallow.setAttr "ref" r'.a1

/-- What becomes of a merged region: the region itself and its copies. -/
structure RegionFollows (values : Substitutions) (visits : List RowVisit) (e : Element)
    (group : Element × List Element) : Prop where
  /-- What cannot be read stays as it was. -/
  unread : refRange? e = none → group = (e, [])
  follows : ∀ r, refRange? e = some r → r.Ordered → RepeatsInside values visits r →
    ∃ r', MovedByPass values visits r r' ∧ refRange? group.1 = some r' ∧
      (group.1 = e ∨ group.1 = e.setAttr "ref" r'.a1) ∧
      RepeatedBelow e r' (generatedAt values visits r.start.row) group.2

/-- The copies of a region on its last row are below each other, one for each generated row. -/
private theorem repeatedBelow_map (e : Element) {r : RangeRef} {count : Nat} (hread : r.Readable)
    (hordered : r.Ordered) (hrows : r.stop.row + count ≤ maxRows) :
    (∀ c ∈ (List.range' 1 count).map fun k => r.offset 0 (k : Nat), c.Readable) ∧
      RepeatedBelow e r count (((List.range' 1 count).map fun k => r.offset 0 (k : Nat)).map
        fun c => e.shallow.setAttr "ref" c.a1) := by
  -- Each copy is the region moved by its own number of rows, inside the sheet.
  have hcopy : ∀ k < count, r.MovedBy (r.offset 0 (k + 1 : Nat)) 0 (k + 1 : Nat) ∧
      (r.offset 0 (k + 1 : Nat)).Readable := by
    intro k hk
    have hcol := hread.start.col_pos
    have hcol' := hread.stop.col_le
    exact RangeRef.movedBy_offset hread hordered 0 (k + 1 : Nat) (by omega) (by omega) (by omega)
      (by omega)
  constructor
  · intro c hc
    obtain ⟨k, hk, rfl⟩ := List.mem_map.1 hc
    have hk := List.mem_range'_1.1 hk
    have := (hcopy (k - 1) (by omega)).2
    rwa [Nat.sub_add_cancel hk.1] at this
  · refine ⟨by simp, fun k c hc => ?_⟩
    rw [List.map_map, List.getElem?_map] at hc
    obtain ⟨n, hn, rfl⟩ := Option.map_eq_some_iff.1 hc
    have hk : k < count := by simpa using (List.getElem?_eq_some_iff.1 hn).1
    rw [List.getElem?_range' hk, Option.some.injEq, Nat.one_mul, Nat.add_comm] at hn
    subst hn
    obtain ⟨hmoved, hcopied⟩ := hcopy k hk
    exact ⟨_, hmoved, refRange?_setAttr _ hcopied, rfl⟩

/-- What becomes of a region on its own is what the law says of it. -/
theorem regionFollows_of_foldl (values : Substitutions) (pushDownPageBreaks : Bool)
    (sheetName : String) {first last : StringTable} {source : List Element} {visits : List RowVisit}
    (hinc : Increasing source) (hvisited : Visited first last source visits) (e : Element) :
    ∃ group : Element × List Element, RegionFollows values visits e group ∧
      (sheetMoves values pushDownPageBreaks sheetName 0 visits).foldl stepMerges [e] =
        group.1 :: group.2 := by
  cases hread : refRange? e with
  | none =>
    refine ⟨(e, []), ⟨fun _ => rfl, fun r hr => ?_⟩,
      foldl_stepMerges_of_unmoved (unmoved_of_none _ hread)⟩
    rw [hread] at hr
    exact nomatch hr
  | some r =>
    by_cases hin : r.Ordered ∧ RepeatsInside values visits r
    · -- The region by itself goes where its range does, and its copies stay where they are.
      obtain ⟨hordered, hin⟩ := hin
      have hreadable := readable_of_refRange? hread
      obtain ⟨r', hmoved, hread', hleads⟩ := leads_of_increasing pushDownPageBreaks sheetName hinc
        hvisited hreadable hordered hin.toStaysInside
      have hrows : r'.stop.row + generatedAt values visits r.start.row ≤ maxRows := by
        have := hmoved.stop.row
        have := hin.copies
        omega
      obtain ⟨hcopies, hrepeated⟩ := repeatedBelow_map e hread' (hmoved.ordered hordered) hrows
      have hfold := foldl_stepMerges_of_leads hleads hread hcopies []
        fun c hc => by simp at hc
      obtain ⟨hfollow, htext⟩ := refRange?_of_follows hleads.follows hread
      refine ⟨(_, _), ⟨fun hnone => ?_, fun r₂ hr₂ _ _ => ?_⟩, hfold⟩
      · rw [hread] at hnone
        exact nomatch hnone
      · rw [hread] at hr₂
        cases hr₂
        exact ⟨r', hmoved, hfollow, htext, hrepeated⟩
    · -- Nothing is said of a region that leaves the sheet.
      obtain ⟨rest, hrest⟩ := foldl_stepMerges_cons
        (sheetMoves values pushDownPageBreaks sheetName 0 visits) e []
      refine ⟨(_, rest), ⟨fun hnone => ?_, fun r₂ hr₂ hordered₂ hin₂ => ?_⟩, hrest⟩
      · rw [hread] at hnone
        exact nomatch hnone
      · rw [hread] at hr₂
        cases hr₂
        exact absurd ⟨hordered₂, hin₂⟩ hin

/-- A row that generates rows makes the count of the merged regions right. -/
private theorem down_mem_sheetMoves {pushDownPageBreaks : Bool} {sheetName : String} (above : Nat)
    {visits : List RowVisit} {v : RowVisit} (hv : v ∈ visits) (h : 0 < v.generated values) :
    ∃ s : RowShift, Move.down s ∈ sheetMoves values pushDownPageBreaks sheetName above visits ∧
      s.rows ≠ 0 := by
  induction visits generalizing above with
  | nil => simp at hv
  | cons w vs ih =>
    rcases List.mem_cons.1 hv with rfl | hv
    · refine ⟨_, List.mem_append_left _ (List.mem_append_right _ (List.mem_singleton_self _)), ?_⟩
      exact Nat.ne_of_gt h
    · obtain ⟨s, hs, hrows⟩ := ih (above + w.generated values) hv
      exact ⟨s, List.mem_append_right _ hs, hrows⟩

/-- Merged regions of a pass: each follows its first cell and is repeated on the rows generated for
it, there are no others, and once rows were generated the count is right. -/
theorem merged_regions_follow {options : FillOptions} {files : ImageFiles} {p q : Pass}
    (hp : p.Fresh) (hrun : p.run options files values = .ok q)
    (hinc : Increasing (sourceRows p.sheet.doc.root))
    (hfit : RowsFit values 0 (p.visits options files values)) :
    Visited p.strings q.strings (sourceRows p.sheet.doc.root) (p.visits options files values) ∧
      (∃ groups : List (Element × List Element),
        List.Forall₂ (RegionFollows values (p.visits options files values))
          (mergeCells p.sheet.doc.root) groups ∧
        (mergeCells q.sheet.doc.root).Perm (groups.flatMap fun g => g.1 :: g.2)) ∧
      ((∃ v ∈ p.visits options files values, 0 < v.generated values) →
        ∀ merges, q.sheet.doc.root.child? "mergeCells" = some merges → Counted merges) := by
  obtain ⟨blocks, hsheet⟩ := sheetRun_of_run hp hrun
  generalize p.visits options files values = visits at hsheet hfit ⊢
  have hregions := (hsheet.outcome hfit).merges
  refine ⟨hsheet.visited, ?_, ?_⟩
  · -- Every element taken by itself; the list as a whole differs by the order of the copies.
    choose group hgroup hfold using fun e => regionFollows_of_foldl values
      options.pushDownPageBreaks p.sheet.name hinc hsheet.visited e
    refine ⟨(mergeCells p.sheet.doc.root).map group, List.forall₂_map_right_iff.2
      (List.forall₂_same.2 fun e _ => hgroup e), ?_⟩
    rw [mergeCells_eq_foldl hregions, List.flatMap_map]
    simp only [← hfold]
    exact perm_foldl_stepMerges_flatMap _ _
  · rintro ⟨v, hv, hrows⟩ merges hmerges
    rw [hregions] at hmerges
    obtain ⟨source, -, rfl⟩ := Option.map_eq_some_iff.1 hmerges
    exact counted_foldl_merges (.inr (down_mem_sheetMoves 0 hv hrows))

/-- The region `B2:B3` moves down by a row and right by two columns. -/
theorem merged_regions_follow_sample :
    ∃ q, samplePass.run {} (fun _ => none) sampleValues = .ok q ∧
      ∃ e ∈ mergeCells q.sheet.doc.root, ∃ r, refRange? e = some r ∧
        RangeRef.MovedBy ⟨{ col := 2, row := 2 }, { col := 2, row := 3 }⟩ r 2 1 := by
  -- The region of the sample ends two columns right and one row below.
  obtain ⟨q, hq⟩ := samplePass_runs
  obtain ⟨-, ⟨groups, hgroups, hperm⟩, -⟩ := merged_regions_follow samplePass_fresh hq
    (by decide +kernel) (by decide +kernel)
  have hgroup : 1 < groups.length := by
    rw [← hgroups.length_eq]
    decide +kernel
  obtain ⟨r, hmoved, hread, -⟩ := (hgroups.get (by decide +kernel) hgroup).follows
    ⟨{ col := 2, row := 2 }, { col := 2, row := 3 }⟩ (by decide +kernel) (by decide +kernel)
    ⟨⟨by decide +kernel, by decide +kernel⟩, by decide +kernel⟩
  refine ⟨q, hq, (groups.get ⟨1, hgroup⟩).1, ?_, r, hread, ?_⟩
  · exact hperm.mem_iff.2 (List.mem_flatMap.2 ⟨_, List.get_mem groups _, List.mem_cons_self⟩)
  · unfold MovedByPass at hmoved
    have hnet : netAt sampleValues (samplePass.visits {} (fun _ => none) sampleValues) 2 2 = 2 := by
      decide +kernel
    have habove : rowsAbove sampleValues (samplePass.visits {} (fun _ => none) sampleValues) 2 =
        1 := by
      decide +kernel
    rwa [hnet, habove] at hmoved

end Fill

end SheetTemplate
