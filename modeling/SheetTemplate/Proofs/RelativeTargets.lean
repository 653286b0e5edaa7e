import SheetTemplate.Proofs.PartNames

/-!
# Targets from one part to another

The address of a part from another one leads up, out of folders that only the other part is in, and
from there down by name. It may leave more folders than it has to, and it may say nothing at some
places, with a dot or between two slashes. Following it leads to the part in every case.

The folders of a part are the names in front of its file; an empty name is no folder.

## Key results

- `foldl_enter_up`, `foldl_enter_names`: up and down a stack of folders
- `names_relative`: an address name by name
- `relative_targets_lead_back`: an address leads to the part it was made for
-/

namespace SheetTemplate

namespace PartPath

open Text (pieces join)

/-! ### Names in paths -/

/-- The names in a path, the file last. -/
def names (path : String) : List (List Char) := pieces '/' path.toList

/-- A name that stands for itself, and not for a place in the path. -/
def IsName (name : List Char) : Prop := name ≠ [] ∧ name ≠ ['.'] ∧ name ≠ ['.', '.']

/-- A path in which all names stand for themselves. -/
def Direct (path : String) : Prop := ∀ name ∈ names path, IsName name

instance : DecidablePred IsName := fun _ => inferInstanceAs (Decidable (_ ∧ _ ∧ _))

instance : DecidablePred Direct := fun _ => inferInstanceAs (Decidable (∀ _ ∈ _, _))

/-- The names of a path joined are the path. -/
theorem join_names (path : String) : String.ofList (join '/' (names path)) = path := by
  rw [names, Text.join_pieces, String.ofList_toList]

/-- A part is in its folders and has a file behind them. -/
theorem names_eq_folders_append {part : String} (h : Direct part) :
    ∃ file, names part = folders part ++ [file] := by
  unfold folders directory
  -- A part in no folder has a name alone.
  cases hcut : Text.cutLast? '/' part.toList with
  | none =>
    refine ⟨part.toList, ?_⟩
    rw [names, Text.pieces_of_not_mem (Text.cutLast?_eq_none.1 hcut)]
    rfl
  | some cut =>
    obtain ⟨hpart, hfile⟩ := Text.cutLast?_eq_some hcut
    have hnames : names part = pieces '/' cut.1 ++ [cut.2] := by
      rw [names, hpart, Text.pieces_append_cons, Text.pieces_of_not_mem hfile]
    refine ⟨cut.2, ?_⟩
    rw [hnames, String.toList_ofList, List.filter_eq_self.2 fun name hname => ?_]
    have hmem : name ∈ names part := hnames ▸ List.mem_append_left _ hname
    simpa using (h name hmem).1

/-! ### Up and down -/

/-- Each step up takes a folder away. -/
theorem foldl_enter_up (n : Nat) (stack : List (List Char)) :
    (List.replicate n ['.', '.']).foldl enter stack = stack.drop n := by
  induction n generalizing stack with
  | zero => rfl
  | succ n ih =>
    have hup : enter stack ['.', '.'] = stack.tail := rfl
    rw [List.replicate_succ, List.foldl_cons, hup, ih, List.drop_tail]

/-- Names are entered as they are. -/
theorem foldl_enter_names {down : List (List Char)} (h : ∀ name ∈ down, IsName name)
    (stack : List (List Char)) : down.foldl enter stack = down.reverse ++ stack := by
  induction down generalizing stack with
  | nil => rfl
  | cons name down ih =>
    obtain ⟨hempty, hdot, hup⟩ := h name List.mem_cons_self
    have hname : enter stack name = name :: stack := by simp [enter, hempty, hdot, hup]
    rw [List.foldl_cons, hname, ih fun other hmem => h other (List.mem_cons_of_mem _ hmem),
      List.reverse_cons, List.append_assoc, List.singleton_append]

/-- The second list has all names of the first, and between them names that lead nowhere. -/
inductive Padded : List (List Char) → List (List Char) → Prop where
  | nil : Padded [] []
  | name (n : List Char) {ns ns' : List (List Char)} (h : Padded ns ns') :
      Padded (n :: ns) (n :: ns')
  | still {n : List Char} {ns ns' : List (List Char)} (hn : n = [] ∨ n = ['.'])
      (h : Padded ns ns') : Padded ns (n :: ns')

theorem Padded.refl (ns : List (List Char)) : Padded ns ns := by
  induction ns with
  | nil => exact .nil
  | cons n ns ih => exact .name n ih

/-- What is padded leads to the same place. -/
theorem Padded.foldl_enter {ns ns' : List (List Char)} (h : Padded ns ns')
    (stack : List (List Char)) : ns'.foldl enter stack = ns.foldl enter stack := by
  induction h generalizing stack with
  | nil => rfl
  | name n h ih => exact ih _
  | still hn h ih =>
    rw [List.foldl_cons, enter, if_pos hn]
    exact ih stack

/-- The second target is the first one with empty names and dots put in, but not in front. -/
def PaddedTarget (target target' : String) : Prop :=
  ∃ first rest rest', names target = first :: rest ∧ names target' = first :: rest' ∧
    Padded rest rest'

theorem PaddedTarget.refl (target : String) : PaddedTarget target target := by
  obtain ⟨first, rest, hnames⟩ :=
    List.exists_cons_of_ne_nil (Text.pieces_ne_nil '/' target.toList)
  exact ⟨first, rest, rest, hnames, hnames, .refl rest⟩

/-- A target that begins with a name is followed from the folders of the part it belongs to. -/
theorem resolve_of_names {base target : String} {first : List Char} {rest : List (List Char)}
    (hnames : names target = first :: rest) (hfirst : first ≠ []) :
    resolve base target =
      String.ofList (join '/' ((names target).foldl enter (folders base).reverse).reverse) := by
  unfold resolve
  split
  · rename_i r hslash
    rw [names, hslash, pieces, if_pos rfl] at hnames
    exact absurd (List.cons.inj hnames).1.symm hfirst
  · rfl

/-! ### Addresses -/

/-- How many members two lists have in common before they part. -/
def sharedCount : List (List Char) → List (List Char) → Nat
  | a :: as, b :: bs => if a = b then sharedCount as bs + 1 else 0
  | _, _ => 0

/-- The address of a part from another one by way of the first `k` folders of both: out of all
other folders, and down by name. -/
def relative (base part : String) (k : Nat) : String :=
  String.ofList ((List.replicate ((folders base).length - k) "../".toList).flatten ++
    join '/' ((names part).drop k))

/-- Up to the shared count the folders are the same. -/
theorem of_le_sharedCount {k : Nat} {as bs : List (List Char)} (h : k ≤ sharedCount as bs) :
    k ≤ as.length ∧ k ≤ bs.length ∧ as.take k = bs.take k := by
  -- Folder by folder, as long as both have the same one.
  induction as generalizing bs k with
  | nil => simp_all [sharedCount]
  | cons a as ih =>
    cases bs with
    | nil => simp_all [sharedCount]
    | cons b bs =>
      cases k with
      | zero => simp
      | succ k =>
        rw [sharedCount] at h
        split at h
        · rename_i heq
          obtain ⟨ha, hb, htake⟩ := ih (Nat.le_of_succ_le_succ h)
          simpa [heq, htake] using ⟨ha, hb⟩
        · omega

/-- Steps up are pieces of their own. -/
private theorem pieces_up (n : Nat) (s : List Char) :
    pieces '/' ((List.replicate n "../".toList).flatten ++ s) =
      List.replicate n ['.', '.'] ++ pieces '/' s := by
  induction n with
  | zero => rfl
  | succ n ih =>
    have hup : (List.replicate (n + 1) "../".toList).flatten ++ s =
        ['.', '.'] ++ '/' :: ((List.replicate n "../".toList).flatten ++ s) := rfl
    rw [hup, Text.pieces_append (by decide), ih]
    rfl

/-- An address goes up first and then down by the names that are left. -/
theorem names_relative (base part : String) {k : Nat} (hk : k < (names part).length) :
    names (relative base part k) =
      List.replicate ((folders base).length - k) ['.', '.'] ++ (names part).drop k := by
  have hrest : (names part).drop k ≠ [] := List.ne_nil_of_length_pos (by
    rw [List.length_drop]
    omega)
  rw [names, relative, String.toList_ofList, pieces_up, Text.pieces_join hrest fun name hname =>
    Text.not_mem_of_mem_pieces (List.mem_of_mem_drop hname)]

/-- The folders in common and the names that an address goes down by make up the part. -/
theorem foldl_enter_relative {base part : String} (hpart : Direct part) {k : Nat}
    (hk : k ≤ sharedCount (folders base) (folders part)) :
    (names (relative base part k)).foldl enter (folders base).reverse = (names part).reverse := by
  obtain ⟨file, hnames⟩ := names_eq_folders_append hpart
  obtain ⟨hbase, hshared, htake⟩ := of_le_sharedCount hk
  have hlt : k < (names part).length := by
    rw [hnames, List.length_append, List.length_singleton]
    omega
  -- Going up leaves the folders that are shared.
  have hkept : (folders base).reverse.drop ((folders base).length - k) =
      ((names part).take k).reverse := by
    rw [List.drop_reverse, Nat.sub_sub_self hbase, htake, hnames,
      List.take_append_of_le_length hshared]
  have hdown : ∀ name ∈ (names part).drop k, IsName name := fun name hname =>
    hpart name (List.mem_of_mem_drop hname)
  -- Then the names lead down to the part.
  rw [names_relative base part hlt, List.foldl_append, foldl_enter_up, hkept,
    foldl_enter_names hdown, ← List.reverse_append, List.take_append_drop]

/-- An address begins with a name or leads up. -/
theorem head_names_relative {base part : String} (hpart : Direct part) {k : Nat}
    (hk : k < (names part).length) {first : List Char} {rest : List (List Char)}
    (h : names (relative base part k) = first :: rest) : first ≠ [] := by
  have hmem : first ∈ names (relative base part k) := h ▸ List.mem_cons_self
  rw [names_relative base part hk] at hmem
  rcases List.mem_append.1 hmem with hup | hdown
  · rw [List.eq_of_mem_replicate hup]
    exact List.cons_ne_nil _ _
  · exact (hpart first (List.mem_of_mem_drop hdown)).1

/-- A part is found by its path from the root, and from every other part by the addresses that go by
way of folders in common, whatever is put into them that leads nowhere. -/
theorem relative_targets_lead_back {part : String} (hpart : Direct part) (base : String) :
    resolve base ("/" ++ part) = part ∧
      ∀ k ≤ sharedCount (folders base) (folders part),
        resolve base (relative base part k) = part ∧
        ∀ target, PaddedTarget (relative base part k) target → resolve base target = part := by
  have hroot : resolve base ("/" ++ part) = part := by simp [resolve]
  have hpadded : ∀ k ≤ sharedCount (folders base) (folders part),
      ∀ target, PaddedTarget (relative base part k) target → resolve base target = part := by
    -- The padding concerns only what stands behind the first piece.
    rintro k hk target ⟨first, rest, rest', hrelative, htarget, hrest⟩
    obtain ⟨file, hnames⟩ := names_eq_folders_append hpart
    have hlt : k < (names part).length := by
      have := (of_le_sharedCount hk).2.1
      rw [hnames, List.length_append, List.length_singleton]
      omega
    have hsame : (names target).foldl enter (folders base).reverse = (names part).reverse := by
      rw [← foldl_enter_relative hpart hk, hrelative, htarget]
      exact hrest.foldl_enter _
    rw [resolve_of_names htarget (head_names_relative hpart hlt hrelative), hsame,
      List.reverse_reverse, join_names]
  exact ⟨hroot, fun k hk => ⟨hpadded k hk _ (.refl _), hpadded k hk⟩⟩

/-- From a sheet to a picture, out of one folder or out of two. -/
theorem relative_targets_lead_back_sample :
    Direct "xl/media/image1.png" ∧
      sharedCount (folders "xl/worksheets/sheet1.xml") (folders "xl/media/image1.png") = 1 ∧
      relative "xl/worksheets/sheet1.xml" "xl/media/image1.png" 0 = "../../xl/media/image1.png" ∧
      resolve "xl/worksheets/sheet1.xml" "../../xl/media/image1.png" = "xl/media/image1.png" ∧
      PaddedTarget (relative "xl/worksheets/sheet1.xml" "xl/media/image1.png" 1)
        "..//media/././image1.png/" ∧
      resolve "xl/worksheets/sheet1.xml" "..//media/././image1.png/" = "xl/media/image1.png" := by
  have hpart : Direct "xl/media/image1.png" := by decide
  -- The two parts share one folder, so the target may go up once or twice.
  have hcount : sharedCount (folders "xl/worksheets/sheet1.xml") (folders "xl/media/image1.png") =
      1 := by decide
  have hfar : relative "xl/worksheets/sheet1.xml" "xl/media/image1.png" 0 =
      "../../xl/media/image1.png" := by decide
  have hpadded : PaddedTarget (relative "xl/worksheets/sheet1.xml" "xl/media/image1.png" 1)
      "..//media/././image1.png/" :=
    ⟨"..".toList, ["media".toList, "image1.png".toList],
      [[], "media".toList, ".".toList, ".".toList, "image1.png".toList, []], by decide, by decide,
      .still (.inl rfl) (.name _ (.still (.inr rfl) (.still (.inr rfl)
        (.name _ (.still (.inl rfl) .nil)))))⟩
  obtain ⟨-, hrelative⟩ := relative_targets_lead_back hpart "xl/worksheets/sheet1.xml"
  exact ⟨hpart, hcount, hfar, hfar ▸ (hrelative 0 (by omega)).1, hpadded,
    (hrelative 1 (by omega)).2 _ hpadded⟩

end PartPath

end SheetTemplate
