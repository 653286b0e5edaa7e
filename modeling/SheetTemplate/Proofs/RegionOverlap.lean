import SheetTemplate.Proofs.MergedRegions

/-!
# Regions that come to overlap

A merged region moves as a whole, by what is inserted before its first cell, and it is repeated as a
whole on every generated row. So regions without a common cell may have one after a pass. This
happens in two ways: a region of several rows overlaps its own copies, and two regions that share a
row are moved right by different distances. Otherwise regions stay apart.

## Key results

- `RegionGroup`: the regions that come out of one
- `merged_regions_apart`: when the regions of a pass have no cell in common
- `merged_regions_overlap`, `merged_regions_overlap_sideways`: this is not always so
-/

namespace SheetTemplate

open Layout (mergeCells mergedRegions refRange? stepMerges)
open Xml (Element)

/-! ### Rectangles -/

namespace RangeRef

/-- No cell lies in both ranges. -/
def Apart (r s : RangeRef) : Prop := ∀ c, ¬(r.contains c = true ∧ s.contains c = true)

theorem Apart.symm {r s : RangeRef} (h : r.Apart s) : s.Apart r := fun c hc => h c hc.symm

/-- Two rectangles are apart if one ends before the other begins, in rows or in columns. -/
theorem apart_iff {r s : RangeRef} (hr : r.Ordered) (hs : s.Ordered) :
    r.Apart s ↔ r.stop.row < s.start.row ∨ s.stop.row < r.start.row ∨
      r.stop.col < s.start.col ∨ s.stop.col < r.start.col := by
  obtain ⟨hcols, hrows⟩ := hr
  obtain ⟨hcols', hrows'⟩ := hs
  constructor
  · intro h
    -- Otherwise the cell where the later first row and the later first column meet is in both.
    by_contra hno
    apply h { col := max r.start.col s.start.col, row := max r.start.row s.start.row }
    simp only [contains, CellRef.within, Bool.and_eq_true, decide_eq_true_eq]
    omega
  · rintro h c ⟨hrc, hsc⟩
    simp only [contains, CellRef.within, Bool.and_eq_true, decide_eq_true_eq] at hrc hsc
    omega

/-- Whether two moved ranges have a cell in common depends on the distances. -/
theorem apart_iff_of_movedBy {r r' s s' : RangeRef} {cols cols' rows rows' : Int}
    (hr : r.MovedBy r' cols rows) (hs : s.MovedBy s' cols' rows') (hrordered : r.Ordered)
    (hsordered : s.Ordered) :
    r'.Apart s' ↔
      (r.stop.row : Int) + rows < s.start.row + rows' ∨
      (s.stop.row : Int) + rows' < r.start.row + rows ∨
      (r.stop.col : Int) + cols < s.start.col + cols' ∨
      (s.stop.col : Int) + cols' < r.start.col + cols := by
  rw [apart_iff (hr.ordered hrordered) (hs.ordered hsordered)]
  have := hr.start.row
  have := hr.stop.row
  have := hr.start.col
  have := hr.stop.col
  have := hs.start.row
  have := hs.stop.row
  have := hs.start.col
  have := hs.stop.col
  omega

end RangeRef

namespace Fill

variable {values : Substitutions} {visits : List RowVisit}

/-! ### The regions that come out of one -/

/-- The regions that come out of a region: one on its own row and one on each generated row. -/
structure RegionGroup (values : Substitutions) (visits : List RowVisit) (r : RangeRef)
    (group : List RangeRef) : Prop where
  length : group.length = generatedAt values visits r.start.row + 1
  moved : ∀ (k : Nat) (r' : RangeRef), group[k]? = some r' →
    r.MovedBy r' (netAt values visits r.start.row r.start.col)
      (rowsAbove values visits r.start.row + k : Nat)

/-- Every copy is found. -/
theorem RegionGroup.exists_of_le {r : RangeRef} {group : List RangeRef}
    (h : RegionGroup values visits r group) {k : Nat}
    (hk : k ≤ generatedAt values visits r.start.row) :
    ∃ r' ∈ group, r.MovedBy r' (netAt values visits r.start.row r.start.col)
      (rowsAbove values visits r.start.row + k : Nat) := by
  have hlt : k < group.length := by
    rw [h.length]
    omega
  exact ⟨group[k], List.getElem_mem hlt, h.moved k _ (List.getElem?_eq_getElem hlt)⟩

/-- And nothing else is. -/
theorem RegionGroup.exists_of_mem {r r' : RangeRef} {group : List RangeRef}
    (h : RegionGroup values visits r group) (hr' : r' ∈ group) :
    ∃ k ≤ generatedAt values visits r.start.row,
      r.MovedBy r' (netAt values visits r.start.row r.start.col)
        (rowsAbove values visits r.start.row + k : Nat) := by
  obtain ⟨k, hk, rfl⟩ := List.getElem_of_mem hr'
  refine ⟨k, ?_, h.moved k _ (List.getElem?_eq_getElem hk)⟩
  rw [h.length] at hk
  omega

/-- What can be read of elements that all can be read. -/
private theorem getElem?_filterMap {α β : Type} {f : α → Option β} {l : List α}
    (h : ∀ a ∈ l, (f a).isSome) (k : Nat) : (l.filterMap f)[k]? = l[k]?.bind f := by
  induction l generalizing k with
  | nil => rfl
  | cons a l ih =>
    obtain ⟨b, hb⟩ := Option.isSome_iff_exists.1 (h a (by simp))
    rw [List.filterMap_cons_some hb]
    cases k with
    | zero => exact hb.symm
    | succ k => exact ih (fun c hc => h c (List.mem_cons_of_mem a hc)) k

/-- What becomes of the element of a region are the elements of its group. -/
private theorem regionGroup_of_follows {e : Element} {group : Element × List Element}
    (h : RegionFollows values visits e group) {r : RangeRef} (he : refRange? e = some r)
    (hordered : r.Ordered) (hin : RepeatsInside values visits r) :
    RegionGroup values visits r ((group.1 :: group.2).filterMap refRange?) := by
  obtain ⟨r', hmoved, hread, -, hcopies⟩ := h.follows r he hordered hin
  -- The region itself is moved by what is inserted before it, and each copy a row further.
  have hall : ∀ (k : Nat) (c : Element), (group.1 :: group.2)[k]? = some c →
      ∃ r'', refRange? c = some r'' ∧ r.MovedBy r''
        (netAt values visits r.start.row r.start.col)
        (rowsAbove values visits r.start.row + k : Nat) := by
    intro k c hc
    cases k with
    | zero =>
      cases hc
      exact ⟨r', hread, hmoved⟩
    | succ k =>
      obtain ⟨r'', hcopy, hread', -⟩ := hcopies.copy k c hc
      refine ⟨r'', hread', ?_⟩
      have := RangeRef.MovedBy.trans hmoved hcopy
      rwa [Int.add_zero, ← Int.natCast_add] at this
  have hsome : ∀ c ∈ group.1 :: group.2, (refRange? c).isSome := by
    intro c hc
    obtain ⟨k, hk, rfl⟩ := List.getElem_of_mem hc
    obtain ⟨r'', hread', -⟩ := hall k _ (List.getElem?_eq_getElem hk)
    rw [hread']
    rfl
  refine ⟨?_, fun k r'' hget => ?_⟩
  · rw [List.filterMap_length_eq_length.2 hsome, List.length_cons, hcopies.length]
  · rw [getElem?_filterMap hsome] at hget
    obtain ⟨c, hc, hread'⟩ := Option.bind_eq_some_iff.1 hget
    obtain ⟨r₂, hread₂, hmoved₂⟩ := hall k c hc
    rw [hread₂] at hread'
    cases hread'
    exact hmoved₂

/-! ### When regions stay apart -/

/-- Two regions, each moved down by the rows generated above it and right by the columns inserted
left of it, have no cell in common. -/
def StayApart (values : Substitutions) (visits : List RowVisit) (r s : RangeRef) : Prop :=
  r.stop.row + rowsAbove values visits r.start.row <
      s.start.row + rowsAbove values visits s.start.row ∨
    s.stop.row + rowsAbove values visits s.start.row <
      r.start.row + rowsAbove values visits r.start.row ∨
    r.stop.col + netAt values visits r.start.row r.start.col <
      s.start.col + netAt values visits s.start.row s.start.col ∨
    s.stop.col + netAt values visits s.start.row s.start.col <
      r.start.col + netAt values visits r.start.row r.start.col

theorem StayApart.symm {r s : RangeRef} (h : StayApart values visits r s) :
    StayApart values visits s r := by
  unfold StayApart at h ⊢
  omega

/-- A region that takes up one row, or none is generated below its first. -/
def FitsCopies (values : Substitutions) (visits : List RowVisit) (r : RangeRef) : Prop :=
  r.start.row < r.stop.row → generatedAt values visits r.start.row = 0

/-- The rows generated for a row are also above the rows below it. -/
private theorem rowsAbove_add_generatedAt_le (values : Substitutions) (visits : List RowVisit)
    {m n : Nat} (h : m < n) :
    rowsAbove values visits m + generatedAt values visits m ≤ rowsAbove values visits n := by
  induction visits with
  | nil => exact Nat.le_refl _
  | cons v vs ih =>
    rw [rowsAbove_cons, rowsAbove_cons, generatedAt_cons]
    split <;> split <;> split <;> omega

/-- A region and its copies are apart exactly if it takes up one row or is not repeated. -/
private theorem pairwise_apart_iff {r : RangeRef} {group : List RangeRef}
    (h : RegionGroup values visits r group) (hr : r.Ordered) :
    group.Pairwise RangeRef.Apart ↔ FitsCopies values visits r := by
  have hrows := hr.2
  have hcols := hr.1
  constructor
  · intro hapart htall
    -- The region and its first copy share all rows but two.
    by_contra hcopied
    have hlt : 1 < group.length := by
      rw [h.length]
      omega
    have hfirst := h.moved 0 _ (List.getElem?_eq_getElem (by omega))
    have hsecond := h.moved 1 _ (List.getElem?_eq_getElem hlt)
    have hpair := List.pairwise_iff_getElem.1 hapart 0 1 (by omega) hlt (by omega)
    rw [RangeRef.apart_iff_of_movedBy hfirst hsecond hr hr] at hpair
    omega
  · intro hfits
    rw [List.pairwise_iff_getElem]
    intro i j hi hj hlt
    rw [RangeRef.apart_iff_of_movedBy (h.moved i _ (List.getElem?_eq_getElem hi))
      (h.moved j _ (List.getElem?_eq_getElem hj)) hr hr]
    -- Two copies come from one row, and go down by different distances.
    have hsingle : r.start.row = r.stop.row := by
      by_contra hne
      have hnone := hfits (by omega)
      have hlength := h.length
      omega
    omega

/-- Copies on generated rows stay above what begins further down. -/
private theorem apart_of_stayApart {r s r' s' : RangeRef} {j k : Nat} (hr : r.Ordered)
    (hs : s.Ordered) (hfits : FitsCopies values visits r)
    (hr' : r.MovedBy r' (netAt values visits r.start.row r.start.col)
      (rowsAbove values visits r.start.row + j : Nat))
    (hs' : s.MovedBy s' (netAt values visits s.start.row s.start.col)
      (rowsAbove values visits s.start.row + k : Nat))
    (hj : j ≤ generatedAt values visits r.start.row) (hle : r.start.row ≤ s.start.row)
    (h : StayApart values visits r s) : r'.Apart s' := by
  rw [RangeRef.apart_iff_of_movedBy hr' hs' hr hs]
  have hrows := hr.2
  have hrows' := hs.2
  unfold StayApart at h
  rcases Nat.lt_or_eq_of_le hle with hlt | heq
  · have hbelow := rowsAbove_add_generatedAt_le values visits hlt
    -- A region of several rows has no copies; one of a single row has them right below it.
    by_cases htall : r.start.row < r.stop.row
    · have hnone := hfits htall
      omega
    · omega
  · -- The rows of two regions that begin on one row are never apart.
    rw [heq] at h ⊢
    omega

/-- The regions that come out of two are apart if those two stay apart. -/
private theorem forall_apart_iff {r s : RangeRef} {group group' : List RangeRef}
    (h : RegionGroup values visits r group) (h' : RegionGroup values visits s group')
    (hr : r.Ordered) (hs : s.Ordered) (hfits : FitsCopies values visits r)
    (hfits' : FitsCopies values visits s) :
    (∀ r' ∈ group, ∀ s' ∈ group', r'.Apart s') ↔ StayApart values visits r s := by
  constructor
  · -- Each region itself is there, moved like its source region.
    intro hapart
    obtain ⟨r', hmem, hmoved⟩ := h.exists_of_le (Nat.zero_le _)
    obtain ⟨s', hmem', hmoved'⟩ := h'.exists_of_le (Nat.zero_le _)
    have hpair := hapart r' hmem s' hmem'
    rw [RangeRef.apart_iff_of_movedBy hmoved hmoved' hr hs] at hpair
    unfold StayApart
    omega
  · intro hstay r' hmem s' hmem'
    obtain ⟨j, hj, hmoved⟩ := h.exists_of_mem hmem
    obtain ⟨k, hk, hmoved'⟩ := h'.exists_of_mem hmem'
    rcases Nat.le_total r.start.row s.start.row with hle | hle
    · exact apart_of_stayApart hr hs hfits hmoved hmoved' hj hle hstay
    · exact (apart_of_stayApart hs hr hfits' hmoved' hmoved hk hle hstay.symm).symm

/-- Regions that are apart stay so if one that stands right of another moves right at least as far.
Rows that are generated only drive regions apart. -/
theorem stayApart_of_apart {r s : RangeRef} (hr : r.Ordered) (hs : s.Ordered) (h : r.Apart s)
    (hright : r.stop.col < s.start.col →
      netAt values visits r.start.row r.start.col ≤ netAt values visits s.start.row s.start.col)
    (hleft : s.stop.col < r.start.col →
      netAt values visits s.start.row s.start.col ≤ netAt values visits r.start.row r.start.col) :
    StayApart values visits r s := by
  have hrows := hr.2
  have hrows' := hs.2
  unfold StayApart
  -- By the side on which one stands of the other: only left and right need the bounds.
  rcases (RangeRef.apart_iff hr hs).1 h with hbelow | habove | hcols | hcols
  · have := rowsAbove_add_generatedAt_le values visits (show r.start.row < s.start.row by omega)
    omega
  · have := rowsAbove_add_generatedAt_le values visits (show s.start.row < r.start.row by omega)
    omega
  · have := hright hcols
    omega
  · have := hleft hcols
    omega

/-! ### A pass -/

/-- The groups of regions that come out of the elements of a list. -/
private structure Groups (values : Substitutions) (visits : List RowVisit) (merges : List Element)
    (group : Element → List RangeRef) : Prop where
  unread : ∀ e ∈ merges, refRange? e = none → group e = []
  read : ∀ e ∈ merges, ∀ r, refRange? e = some r →
    r.Ordered ∧ RegionGroup values visits r (group e)

/-- The regions of each group are apart if no region of several rows is repeated. -/
private theorem Groups.inside_iff {merges : List Element} {group : Element → List RangeRef}
    (h : Groups values visits merges group) :
    (∀ e ∈ merges, (group e).Pairwise RangeRef.Apart) ↔
      ∀ r ∈ merges.filterMap refRange?, FitsCopies values visits r := by
  -- A group belongs to a region that can be read; other groups are empty.
  constructor
  · intro hapart r hr
    obtain ⟨e, he, hr⟩ := List.mem_filterMap.1 hr
    obtain ⟨hordered, hgroup⟩ := h.read e he r hr
    exact (pairwise_apart_iff hgroup hordered).1 (hapart e he)
  · intro hfits e he
    cases hr : refRange? e with
    | none =>
      rw [h.unread e he hr]
      exact .nil
    | some r =>
      obtain ⟨hordered, hgroup⟩ := h.read e he r hr
      exact (pairwise_apart_iff hgroup hordered).2 (hfits r (List.mem_filterMap.2 ⟨e, he, hr⟩))

/-- The regions of any two groups are apart if the source regions stay apart. -/
private theorem Groups.between_iff {merges : List Element} {group : Element → List RangeRef}
    (h : Groups values visits merges group)
    (hfits : ∀ r ∈ merges.filterMap refRange?, FitsCopies values visits r) :
    (merges.Pairwise fun e e' => ∀ r' ∈ group e, ∀ s' ∈ group e', r'.Apart s') ↔
      (merges.filterMap refRange?).Pairwise (StayApart values visits) := by
  rw [List.pairwise_filterMap]
  apply List.Pairwise.iff_of_mem
  intro e e' he he'
  -- Two elements that can be read stand for two groups; any other has no regions.
  have hpair : ∀ r s, refRange? e = some r → refRange? e' = some s →
      ((∀ r' ∈ group e, ∀ s' ∈ group e', r'.Apart s') ↔ StayApart values visits r s) := by
    intro r s hr hs
    obtain ⟨hordered, hgroup⟩ := h.read e he r hr
    obtain ⟨hordered', hgroup'⟩ := h.read e' he' s hs
    exact forall_apart_iff hgroup hgroup' hordered hordered'
      (hfits r (List.mem_filterMap.2 ⟨e, he, hr⟩)) (hfits s (List.mem_filterMap.2 ⟨e', he', hs⟩))
  constructor
  · intro hapart r hr s hs
    exact (hpair r s hr hs).1 hapart
  · intro hstay r' hr' s' hs'
    cases hr : refRange? e with
    | none =>
      rw [h.unread e he hr] at hr'
      simp at hr'
    | some r =>
      cases hs : refRange? e' with
      | none =>
        rw [h.unread e' he' hs] at hs'
        simp at hs'
      | some s => exact (hpair r s hr hs).2 (hstay r hr s hs) r' hr' s' hs'

/-- Up to their order, the regions of a pass are the groups that come out of the source regions. -/
private theorem perm_mergedRegions {options : FillOptions} {p q : Pass}
    {blocks : List (Element × List Element)} (hsheet : SheetRun options values visits p q blocks)
    (hinc : Increasing (sourceRows p.sheet.doc.root)) (hfit : RowsFit values 0 visits)
    (hin : ∀ r ∈ mergedRegions p.sheet.doc.root, r.Ordered ∧ RepeatsInside values visits r) :
    ∃ group : Element → List RangeRef,
      (mergedRegions q.sheet.doc.root).Perm ((mergeCells p.sheet.doc.root).flatMap group) ∧
      Groups values visits (mergeCells p.sheet.doc.root) group := by
  choose group hgroup hfold using fun e => regionFollows_of_foldl values
    options.pushDownPageBreaks p.sheet.name hinc hsheet.visited e
  -- Each element has its group, and all of them together are the regions of the pass.
  refine ⟨fun e => ((group e).1 :: (group e).2).filterMap refRange?, ?_, ?_, ?_⟩
  · rw [Layout.mergedRegions_eq, Layout.mergeCells_eq_foldl (hsheet.outcome hfit).merges]
    have hperm := (Layout.perm_foldl_stepMerges_flatMap
      (sheetMoves values options.pushDownPageBreaks p.sheet.name 0 visits)
      (mergeCells p.sheet.doc.root)).filterMap refRange?
    simp only [hfold, List.filterMap_flatMap] at hperm
    exact hperm
  · intro e _ hnone
    simp only [(hgroup e).unread hnone, List.filterMap_cons, hnone, List.filterMap_nil]
  · intro e he r hr
    have hmem : r ∈ mergedRegions p.sheet.doc.root := by
      rw [Layout.mergedRegions_eq]
      exact List.mem_filterMap.2 ⟨e, he, hr⟩
    obtain ⟨hordered, hrepeats⟩ := hin r hmem
    exact ⟨hordered, regionGroup_of_follows (hgroup e) hr hordered hrepeats⟩

/-- When the merged regions of a pass have no cell in common: no region of several rows is
repeated, and any two regions stay apart when each is moved as a whole. Regions that were apart
before do so if no region is moved right further than one that stands right of it. -/
theorem merged_regions_apart {options : FillOptions} {files : ImageFiles} {p q : Pass}
    (hp : p.Fresh) (hrun : p.run options files values = .ok q)
    (hinc : Increasing (sourceRows p.sheet.doc.root))
    (hfit : RowsFit values 0 (p.visits options files values))
    (hin : ∀ r ∈ mergedRegions p.sheet.doc.root,
      r.Ordered ∧ RepeatsInside values (p.visits options files values) r) :
    Visited p.strings q.strings (sourceRows p.sheet.doc.root) (p.visits options files values) ∧
      ((mergedRegions q.sheet.doc.root).Pairwise RangeRef.Apart ↔
        (∀ r ∈ mergedRegions p.sheet.doc.root,
          FitsCopies values (p.visits options files values) r) ∧
        (mergedRegions p.sheet.doc.root).Pairwise
          (StayApart values (p.visits options files values))) ∧
      ((mergedRegions p.sheet.doc.root).Pairwise RangeRef.Apart →
        (∀ r ∈ mergedRegions p.sheet.doc.root, ∀ s ∈ mergedRegions p.sheet.doc.root,
          r.stop.col < s.start.col →
          netAt values (p.visits options files values) r.start.row r.start.col ≤
            netAt values (p.visits options files values) s.start.row s.start.col) →
        (mergedRegions p.sheet.doc.root).Pairwise
          (StayApart values (p.visits options files values))) := by
  obtain ⟨blocks, hsheet⟩ := sheetRun_of_run hp hrun
  generalize p.visits options files values = visits at hsheet hfit hin ⊢
  refine ⟨hsheet.visited, ?_, fun hapart hnet => ?_⟩
  · -- First the groups one by one, then any two of them.
    obtain ⟨group, hperm, hgroups⟩ := perm_mergedRegions hsheet hinc hfit hin
    rw [hperm.pairwise_iff fun h => RangeRef.Apart.symm h, List.pairwise_flatMap,
      hgroups.inside_iff, Layout.mergedRegions_eq]
    exact and_congr_right hgroups.between_iff
  · apply hapart.imp_of_mem
    intro r s hr hs h
    exact stayApart_of_apart (hin r hr).1 (hin s hs).1 h (hnet r hr s hs) (hnet s hs r hr)

/-- The two regions of the small sheet stay apart. -/
theorem merged_regions_apart_sample :
    ∃ q, samplePass.run {} (fun _ => none) sampleValues = .ok q ∧
      (mergedRegions q.sheet.doc.root).Pairwise RangeRef.Apart := by
  obtain ⟨q, hq⟩ := samplePass_runs
  obtain ⟨-, hapart, -⟩ := merged_regions_apart samplePass_fresh hq (by decide +kernel)
    (by decide +kernel) (by decide +kernel)
  refine ⟨q, hq, hapart.2 ⟨?_, ?_⟩⟩
  · unfold FitsCopies
    decide +kernel
  · unfold StayApart
    decide +kernel

/-! ### A region of two rows on a row that generates one -/

/-- A pass over a sheet whose only row generates a row, beside a region that takes up two rows. -/
def tallRegionPass : Pass :=
  { samplePass with
    sheet := { samplePass.sheet with
      doc := { root := .ofChildren "worksheet" [] [
        .ofChildren "sheetData" [] [.ofChildren "row" [("r", "1")] [sampleCell [("r", "A1")] "0"]],
        .ofChildren "mergeCells" [("count", "1")] [
          .ofChildren "mergeCell" [("ref", "B1:B2")] []]] } } }

/-- In the sample, the copy begins on the last row of the region. -/
theorem tallRegionPass_runs : ∃ q, tallRegionPass.run {} (fun _ => none) sampleValues = .ok q ∧
    mergedRegions q.sheet.doc.root =
      [⟨{ col := 2, row := 1 }, { col := 2, row := 2 }⟩,
        ⟨{ col := 2, row := 2 }, { col := 2, row := 3 }⟩] := by
  have hok : ((tallRegionPass.run {} (fun _ => none) sampleValues).toOption.map fun q =>
      mergedRegions q.sheet.doc.root) =
      some [⟨{ col := 2, row := 1 }, { col := 2, row := 2 }⟩,
        ⟨{ col := 2, row := 2 }, { col := 2, row := 3 }⟩] := by
    decide +kernel
  exact exists_eq_ok hok

/-- Merged regions without a common cell do not always stay so. -/
theorem merged_regions_overlap :
    ¬∀ (options : FillOptions) (files : ImageFiles) (values : Substitutions) (p q : Pass),
      p.Fresh → p.run options files values = .ok q →
      Increasing (sourceRows p.sheet.doc.root) →
      Inside values (p.visits options files values) →
      (∀ r ∈ mergedRegions p.sheet.doc.root,
        r.Ordered ∧ RepeatsInside values (p.visits options files values) r) →
      (mergedRegions p.sheet.doc.root).Pairwise RangeRef.Apart →
      (mergedRegions q.sheet.doc.root).Pairwise RangeRef.Apart := by
  intro hclaim
  obtain ⟨q, hq, hregions⟩ := tallRegionPass_runs
  have hsource : mergedRegions tallRegionPass.sheet.doc.root =
      [⟨{ col := 2, row := 1 }, { col := 2, row := 2 }⟩] := by
    decide +kernel
  have hapart := hclaim {} (fun _ => none) sampleValues tallRegionPass q ⟨rfl, rfl⟩ hq
    (by decide +kernel) (by decide +kernel) (by decide +kernel)
    (hsource ▸ List.pairwise_singleton _ _)
  rw [hregions] at hapart
  -- The region and its copy both take up `B2`.
  apply (List.pairwise_pair.1 hapart) { col := 2, row := 2 }
  decide +kernel

/-! ### Two regions on one row that move by different distances -/

/-- A pass over a sheet with a list on its first row, which moves the region right of it but not
the one below the list. -/
def sidewaysPass : Pass :=
  { samplePass with
    sheet := { samplePass.sheet with
      doc := { root := .ofChildren "worksheet" [] [
        .ofChildren "sheetData" [] [.ofChildren "row" [("r", "1")] [sampleCell [("r", "A1")] "1"]],
        .ofChildren "mergeCells" [("count", "2")] [
          .ofChildren "mergeCell" [("ref", "B1:B2")] [],
          .ofChildren "mergeCell" [("ref", "C2:D2")] []]] } } }

/-- In the sample, the left region is moved onto the right one. -/
theorem sidewaysPass_runs : ∃ q, sidewaysPass.run {} (fun _ => none) sampleValues = .ok q ∧
    mergedRegions q.sheet.doc.root =
      [⟨{ col := 4, row := 1 }, { col := 4, row := 2 }⟩,
        ⟨{ col := 3, row := 2 }, { col := 4, row := 2 }⟩] := by
  have hok : ((sidewaysPass.run {} (fun _ => none) sampleValues).toOption.map fun q =>
      mergedRegions q.sheet.doc.root) =
      some [⟨{ col := 4, row := 1 }, { col := 4, row := 2 }⟩,
        ⟨{ col := 3, row := 2 }, { col := 4, row := 2 }⟩] := by
    decide +kernel
  exact exists_eq_ok hok

/-- Nor do they if no region overlaps its own copies. -/
theorem merged_regions_overlap_sideways :
    ¬∀ (options : FillOptions) (files : ImageFiles) (values : Substitutions) (p q : Pass),
      p.Fresh → p.run options files values = .ok q →
      Increasing (sourceRows p.sheet.doc.root) →
      Inside values (p.visits options files values) →
      (∀ r ∈ mergedRegions p.sheet.doc.root,
        r.Ordered ∧ RepeatsInside values (p.visits options files values) r ∧
          FitsCopies values (p.visits options files values) r) →
      (mergedRegions p.sheet.doc.root).Pairwise RangeRef.Apart →
      (mergedRegions q.sheet.doc.root).Pairwise RangeRef.Apart := by
  intro hclaim
  obtain ⟨q, hq, hregions⟩ := sidewaysPass_runs
  have hsource : mergedRegions sidewaysPass.sheet.doc.root =
      [⟨{ col := 2, row := 1 }, { col := 2, row := 2 }⟩,
        ⟨{ col := 3, row := 2 }, { col := 4, row := 2 }⟩] := by
    decide +kernel
  have hbefore : (mergedRegions sidewaysPass.sheet.doc.root).Pairwise RangeRef.Apart := by
    rw [hsource, List.pairwise_pair, RangeRef.apart_iff (by decide) (by decide)]
    decide
  have hapart := hclaim {} (fun _ => none) sampleValues sidewaysPass q ⟨rfl, rfl⟩ hq
    (by decide +kernel) (by decide +kernel)
    (by
      unfold FitsCopies
      decide +kernel)
    hbefore
  rw [hregions] at hapart
  -- Both regions take up `D2`.
  apply (List.pairwise_pair.1 hapart) { col := 4, row := 2 }
  decide +kernel

end Fill

end SheetTemplate
