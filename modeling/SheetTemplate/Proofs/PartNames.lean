import SheetTemplate.Package.Basic
import SheetTemplate.Package.Path
import SheetTemplate.Proofs.ReferenceRoundTrip

/-!
# Names of parts

A part is named by the folders it is in and the name of its file. The relationships of a part are in
a folder beside it, under a name with an extension of its own.

A target that leaves a folder and enters another one, such as `../media/image1.png`, means a part of
the folder above. Which part that is depends on where the target is followed from.

## Key results

- `eq_of_relationshipsOf`: a relationships part belongs to one part
- `extension?_relationshipsOf`: relationships parts have an extension in common
- `resolve_sibling_eq_iff`: where a target that leaves a folder leads into `xl`
-/

namespace SheetTemplate

/-! ### Cuts -/

namespace Text

/-- What comes after the last cut does not matter to where it is. -/
theorem cutLast?_append_right {c : Char} (s : List Char) {t : List Char} (h : c ∉ t) :
    cutLast? c (s ++ t) = (cutLast? c s).map fun cut => (cut.1, cut.2 ++ t) := by
  induction s with
  | nil => simp [cutLast?, cutLast?_eq_none.2 h]
  | cons x r ih =>
    rw [List.cons_append, cutLast?, cutLast?, ih]
    cases cutLast? c r with
    | some cut => rfl
    | none => by_cases hx : x = c <;> simp [hx]

/-- Without the separator a text is one piece. -/
theorem pieces_of_not_mem {c : Char} {s : List Char} (h : c ∉ s) : pieces c s = [s] := by
  induction s with
  | nil => rfl
  | cons x r ih =>
    obtain ⟨hx, hr⟩ := not_or.1 (List.mem_cons.not.1 h)
    rw [pieces, if_neg (Ne.symm hx), ih hr]

/-- A text is cut in front of a character and behind it apart. -/
theorem pieces_append_cons (c : Char) (s t : List Char) :
    pieces c (s ++ c :: t) = pieces c s ++ pieces c t := by
  induction s with
  | nil => simp [pieces]
  | cons x r ih =>
    obtain ⟨p, ps, hp⟩ := List.exists_cons_of_ne_nil (pieces_ne_nil c r)
    rw [List.cons_append, pieces, pieces, ih, hp]
    split <;> rfl

/-- A piece ends at the separator behind it. -/
theorem pieces_append {c : Char} {s : List Char} (h : c ∉ s) (t : List Char) :
    pieces c (s ++ c :: t) = s :: pieces c t := by
  rw [pieces_append_cons, pieces_of_not_mem h, List.singleton_append]

/-- No piece has the separator in it. -/
theorem not_mem_of_mem_pieces {c : Char} {s p : List Char} (h : p ∈ pieces c s) : c ∉ p := by
  induction s generalizing p with
  | nil =>
    rw [List.mem_singleton.1 h]
    exact List.not_mem_nil
  | cons x r ih =>
    rw [pieces] at h
    split at h
    · rcases List.mem_cons.1 h with rfl | h
      · exact List.not_mem_nil
      · exact ih h
    · rename_i hx
      -- The character goes to the first piece of the rest.
      cases hrest : pieces c r with
      | nil => exact absurd hrest (pieces_ne_nil c r)
      | cons q qs =>
        rw [hrest] at h ih
        rcases List.mem_cons.1 h with rfl | h
        · exact List.not_mem_cons_of_ne_of_not_mem (Ne.symm hx) (ih List.mem_cons_self)
        · exact ih (List.mem_cons_of_mem _ h)

/-- Pieces are found again where they were joined. -/
theorem pieces_join {c : Char} {ps : List (List Char)} (hne : ps ≠ []) (h : ∀ p ∈ ps, c ∉ p) :
    pieces c (join c ps) = ps := by
  induction ps with
  | nil => exact absurd rfl hne
  | cons p ps ih =>
    have hp := h p List.mem_cons_self
    cases ps with
    | nil => exact pieces_of_not_mem hp
    | cons q qs =>
      rw [join, pieces_append hp,
        ih (List.cons_ne_nil q qs) fun r hr => h r (List.mem_cons_of_mem _ hr)]

end Text

namespace PartPath

open Text (pieces join cutLast? cutLast?_append cutLast?_append_right cutLast?_eq_some)

/-! ### Folders and files -/

/-- A file in a folder is in that folder. -/
theorem directory_append (dir : String) {file : String} (h : '/' ∉ file.toList) :
    directory (dir ++ "/" ++ file) = dir := by
  rw [directory]
  simp [cutLast?_append dir.toList h]

/-- It has its own name there. -/
theorem fileName_append (dir : String) {file : String} (h : '/' ∉ file.toList) :
    fileName (dir ++ "/" ++ file) = file := by
  rw [fileName]
  simp [cutLast?_append dir.toList h]

/-- The name of a file has no slash. -/
theorem not_mem_fileName (part : String) : '/' ∉ (fileName part).toList := by
  unfold fileName
  cases hcut : cutLast? '/' part.toList with
  | none => exact Text.cutLast?_eq_none.1 hcut
  | some cut => simpa using (cutLast?_eq_some hcut).2

/-- A part in a folder is named by both. -/
theorem eq_directory_append {part : String} (h : directory part ≠ "") :
    part = directory part ++ "/" ++ fileName part := by
  refine String.toList_inj.1 ?_
  unfold directory fileName at *
  cases hcut : cutLast? '/' part.toList with
  | none =>
    rw [hcut] at h
    exact absurd rfl h
  | some cut => simpa using (cutLast?_eq_some hcut).1

/-! ### Relationships parts -/

/-- The relationships part has a longer name than its part. -/
private theorem length_lt_relationshipsOf (part : String) :
    part.toList.length < (relationshipsOf part).toList.length := by
  unfold relationshipsOf directory fileName
  -- A part in no folder has its relationships in a folder of the package itself.
  cases hcut : Text.cutLast? '/' part.toList with
  | none =>
    simp
    omega
  | some cut =>
    obtain ⟨dir, file⟩ := cut
    rw [(Text.cutLast?_eq_some hcut).1]
    dsimp only
    split
    · rename_i hdir
      have hnil : dir = [] := by simpa using congrArg String.toList hdir
      simp [hnil]
    · simp

/-- The relationships of a part are in another part. -/
theorem relationshipsOf_ne (part : String) : relationshipsOf part ≠ part := by
  intro h
  have := length_lt_relationshipsOf part
  rw [h] at this
  omega

/-- No part has its relationships among the content types. -/
theorem relationshipsOf_ne_contentTypes (part : String) :
    relationshipsOf part ≠ Package.contentTypesPart := by
  have hlast : (relationshipsOf part).toList.getLast? = some 's' := by
    unfold relationshipsOf
    split <;> simp [List.getLast?_cons, List.getLast?_append]
  intro h
  rw [h] at hlast
  exact absurd hlast (by decide)

/-- The folder and the file of the relationships of a part. -/
private theorem cut_relationshipsOf (part : String) :
    directory (relationshipsOf part) =
        (if directory part = "" then "_rels" else directory part ++ "/_rels") ∧
      fileName (relationshipsOf part) = fileName part ++ ".rels" := by
  have hfile : '/' ∉ (fileName part ++ ".rels").toList := by
    simpa using not_mem_fileName part
  -- Both ways of writing the name put the file into a folder.
  unfold relationshipsOf
  split
  · have hname : "_rels/" ++ fileName part ++ ".rels" =
        "_rels" ++ "/" ++ (fileName part ++ ".rels") := by
      simp [String.append_assoc]
    rw [hname]
    exact ⟨directory_append _ hfile, fileName_append _ hfile⟩
  · have hname : directory part ++ "/_rels/" ++ fileName part ++ ".rels" =
        directory part ++ "/_rels" ++ "/" ++ (fileName part ++ ".rels") := by
      simp [String.append_assoc]
    rw [hname]
    exact ⟨directory_append _ hfile, fileName_append _ hfile⟩

/-- A relationships part belongs to one part, unless it is at the root. -/
theorem eq_of_relationshipsOf {part other : String}
    (h : relationshipsOf part = relationshipsOf other) (hother : directory other ≠ "") :
    part = other := by
  obtain ⟨hdir, hfile⟩ := cut_relationshipsOf part
  obtain ⟨hdir', hfile'⟩ := cut_relationshipsOf other
  rw [h, hdir', if_neg hother] at hdir
  rw [h, hfile'] at hfile
  -- A part in no folder would have its relationships in a folder with a shorter name.
  have hpart : directory part ≠ "" := by
    intro hnil
    rw [if_pos hnil] at hdir
    have := congrArg (·.toList.length) hdir
    have hlength : 0 < (directory other).toList.length :=
      List.length_pos_of_ne_nil fun hnil => hother (String.toList_inj.1 hnil)
    simp at this
  rw [if_neg hpart] at hdir
  rw [eq_directory_append hpart, eq_directory_append hother,
    (String.append_left_inj _).1 hdir, (String.append_left_inj _).1 hfile]

/-! ### Extensions -/

/-- The extension of a part: what follows the last dot in the name of its file. -/
def extension? (part : String) : Option String :=
  (cutLast? '.' (fileName part).toList).map fun cut => String.ofList cut.2

/-- What follows a dot is an extension if nothing more follows. -/
theorem extension?_append (stem : String) {extension : String} (hslash : '/' ∉ extension.toList)
    (hdot : '.' ∉ extension.toList) : extension? (stem ++ "." ++ extension) = some extension := by
  have hend : '/' ∉ '.' :: extension.toList := by simpa using hslash
  -- Only what stands behind the last slash is looked at, and it ends with the extension.
  have hname : ∃ file, (fileName (stem ++ "." ++ extension)).toList =
      file ++ '.' :: extension.toList := by
    unfold fileName
    have hcut := cutLast?_append_right stem.toList hend
    have hlist : (stem ++ "." ++ extension).toList = stem.toList ++ '.' :: extension.toList := by
      simp
    rw [hlist, hcut]
    cases cutLast? '/' stem.toList with
    | none => exact ⟨stem.toList, hlist⟩
    | some cut => exact ⟨cut.2, by simp⟩
  obtain ⟨file, hfile⟩ := hname
  rw [extension?, hfile, cutLast?_append file hdot]
  simp

/-- So relationships parts have an extension of their own. -/
theorem extension?_relationshipsOf (part : String) :
    extension? (relationshipsOf part) = some "rels" := by
  have hname : ∃ stem, relationshipsOf part = stem ++ "." ++ "rels" := by
    unfold relationshipsOf
    split
    · exact ⟨"_rels/" ++ fileName part, by simp [String.append_assoc]⟩
    · exact ⟨directory part ++ "/_rels/" ++ fileName part,
        by simp [String.append_assoc]⟩
  obtain ⟨stem, hstem⟩ := hname
  rw [hstem]
  exact extension?_append stem (by decide) (by decide)

/-! ### Targets beside a folder -/

/-- The folders that a part is in, the outermost first. -/
def folders (part : String) : List (List Char) :=
  (pieces '/' (directory part).toList).filter (!·.isEmpty)

/-- Whether a part is in a folder of `xl`, and no deeper. -/
def isInFolderOfXl (part : String) : Bool := (folders part).dropLast == ["xl".toList]

/-- A name in a path that stands for itself. -/
structure Plain (name : String) : Prop where
  noSlash : '/' ∉ name.toList
  noDot : ∃ c r, name.toList = c :: r ∧ c ≠ '.'

/-- A plain name is entered as it is. -/
private theorem Plain.enter {name : String} (h : Plain name) (stack : List (List Char)) :
    enter stack name.toList = name.toList :: stack := by
  obtain ⟨c, r, hname, hc⟩ := h.noDot
  rw [hname, PartPath.enter]
  simp [hc]

/-- A target that leaves the folder of a part for another leads on from the folder above. -/
private theorem resolve_sibling (part : String) {folder file : String} (hfolder : Plain folder)
    (hfile : Plain file) :
    resolve part ("../" ++ folder ++ "/" ++ file) =
      String.ofList (join '/' ((folders part).dropLast ++ [folder.toList, file.toList])) := by
  -- The target goes up one folder, into another one and to the file.
  have htarget : ("../" ++ folder ++ "/" ++ file).toList =
      '.' :: ['.'] ++ '/' :: (folder.toList ++ '/' :: file.toList) := by simp
  have hpieces : pieces '/' ('.' :: ['.'] ++ '/' :: (folder.toList ++ '/' :: file.toList)) =
      [['.', '.'], folder.toList, file.toList] := by
    rw [Text.pieces_append (by decide), Text.pieces_append hfolder.noSlash,
      Text.pieces_of_not_mem hfile.noSlash]
  have hup : ∀ stack, PartPath.enter stack ['.', '.'] = stack.tail := fun _ => rfl
  rw [resolve, htarget]
  show String.ofList (join '/' ((pieces '/' ('.' :: ['.'] ++ '/' :: _)).foldl PartPath.enter
    (folders part).reverse).reverse) = _
  rw [hpieces]
  simp only [List.foldl_cons, List.foldl_nil]
  rw [hup, hfolder.enter, hfile.enter, List.tail_reverse]
  simp

/-- A target that leaves the folder of a part for a folder of `xl` leads there exactly if the part
is in a folder of `xl` itself. -/
theorem resolve_sibling_eq_iff (part : String) {folder file : String} (hfolder : Plain folder)
    (hfile : Plain file) :
    resolve part ("../" ++ folder ++ "/" ++ file) = "xl/" ++ folder ++ "/" ++ file ↔
      isInFolderOfXl part = true := by
  have hxl : "xl/" ++ folder ++ "/" ++ file =
      String.ofList (join '/' (["xl".toList] ++ [folder.toList, file.toList])) := by
    simp [join, ← String.toList_inj]
  have hends : ∀ name ∈ [folder.toList, file.toList], '/' ∉ name := by
    simpa using ⟨hfolder.noSlash, hfile.noSlash⟩
  have hfolders : ∀ name ∈ (folders part).dropLast, '/' ∉ name := fun name hname =>
    Text.not_mem_of_mem_pieces (List.mem_of_mem_filter (List.dropLast_subset _ hname))
  rw [resolve_sibling part hfolder hfile, hxl, String.ofList_inj, isInFolderOfXl, beq_iff_eq]
  constructor
  · intro h
    -- The names in a path are found again.
    have hpieces := congrArg (pieces '/') h
    rw [Text.pieces_join (by simp), Text.pieces_join (by simp)] at hpieces
    · exact List.append_cancel_right hpieces
    · intro name hname
      rcases List.mem_append.1 hname with hname | hname
      · rw [List.mem_singleton.1 hname]
        decide
      · exact hends name hname
    -- The same holds of the names on the other side.
    · intro name hname
      rcases List.mem_append.1 hname with hname | hname
      · exact hfolders name hname
      · exact hends name hname
  · intro h
    rw [h]

end PartPath

end SheetTemplate
