import SheetTemplate.Proofs.AddedRelationships

/-!
# What the policies for errors act on

Two options say what becomes of an error: whether pictures on a sheet without usable relationships
are an error at all, and whether a picture that cannot be read is left out. Both are asked for deep
inside a pass. Two passes that differ in one of them run side by side, step by step, up to the first
error that the option is about; `Forgives` is what holds of every pair of steps until then, and of
every step of the more lenient pass after it.

## Key results

- `Forgives.bind`: steps after steps
- `forgives_fillSourceRows`: all rows, from the two steps that ask for the options
- `Session.policies_act_on_own_errors`: either option makes a difference only to a pass that fails
  with an error of its own
-/

namespace SheetTemplate

open Xml (Element)

/-! ### Causes -/

/-- What an error is about. -/
inductive Error.Cause where
  /-- The relationships of a sheet that pictures need. -/
  | relationships
  /-- The bytes of one picture. -/
  | picture
  /-- Any other part of the package, or what is asked of it. -/
  | package
deriving DecidableEq

/-- What an error is about. -/
def Error.cause : Error → Error.Cause
  | .missingRelationships _ => .relationships
  | .file | .image | .base64 => .picture
  | _ => .package

/-- Whether a step fails with errors of one kind only. -/
def FailsWith (P : Error → Prop) (x : Except Error α) : Prop := ∀ e, x = .error e → P e

namespace FailsWith

variable {P : Error → Prop} {α β : Type}

/-- What succeeds has no cause to name. -/
theorem ok (a : α) : FailsWith P (.ok a) := fun _ h => by cases h

/-- An error is its own cause. -/
theorem error {e : Error} (h : P e) : FailsWith P (.error e : Except Error α) := by
  rintro _ ⟨⟩
  exact h

/-- Steps one after the other fail for the cause of one of them. -/
theorem bind {x : Except Error α} {f : α → Except Error β} (h : FailsWith P x)
    (hf : ∀ a, FailsWith P (f a)) : FailsWith P (x >>= f) := by
  cases x with
  | ok a => exact hf a
  | error e => exact .error (h e rfl)

/-- What is made of a result does not fail. -/
theorem map {x : Except Error α} (h : FailsWith P x) (f : α → β) : FailsWith P (x.map f) := by
  cases x with
  | ok a => exact .ok _
  | error e => exact .error (h e rfl)

/-- A list of steps fails for the cause of one of them. -/
theorem mapM {f : α → Except Error β} (hf : ∀ a, FailsWith P (f a)) (l : List α) :
    FailsWith P (l.mapM f) := by
  induction l with
  | nil => exact .ok _
  | cons a l ih =>
    rw [List.mapM_cons]
    exact (hf a).bind fun _ => ih.bind fun _ => .ok _

end FailsWith

/-- Whether an error is about no picture and not about whether there can be one. -/
abbrev OfPackage (e : Error) : Prop := e.cause = .package

/-- A picture that cannot be loaded is a failure of the picture, whichever way it was to be read. -/
theorem cause_of_load (files : ImageFiles) (root : Option String) (source : ImageSource) :
    FailsWith (·.cause = .picture) (Image.load files root source) := by
  -- The bytes are given, on a file or of an address; then they are no picture that can be shown.
  refine FailsWith.bind (x := Image.bytesOf files root source) ?_ fun bytes => ?_
  · unfold Image.bytesOf
    split
    · exact .ok _
    · split
      · exact .ok _
      · exact .error rfl
    · split
      · exact .ok _
      · exact .error rfl
  · unfold Image.probe
    split
    · exact .error rfl
    · split
      · exact .ok _
      · exact .error rfl

/-! ### Errors of the package -/

/-- A part that is no document is a failure of the package. -/
private theorem cause_of_parse (bytes : ByteArray) :
    FailsWith OfPackage (Xml.Document.parse bytes) := by
  unfold Xml.Document.parse Xml.Document.ofGlyphs
  split
  · unfold Xml.Reader.finish
    split
    · exact .error rfl
    · split
      · exact .ok _
      · exact .error rfl
  · exact .error rfl

/-- So is a part that is missing. -/
private theorem cause_of_requireXml (package : Package) (name : String) :
    FailsWith OfPackage (package.requireXml name) := by
  unfold Package.requireXml
  split
  · exact cause_of_parse _
  · exact .error rfl

/-- So are relationships that cannot be read. -/
private theorem cause_of_loadRels (package : Package) (path : String) :
    FailsWith OfPackage (Relationships.load? package path) := by
  refine FailsWith.map ?_ _
  unfold Package.xml?
  split
  · exact (cause_of_parse _).map _
  · exact .ok _

/-- So is an id that is no number. -/
private theorem cause_of_add (rels : Relationships) (type target : String) :
    FailsWith OfPackage (rels.add type target) := by
  refine .map (.map (.mapM (fun rel => ?_) _) _) _
  split
  · exact .ok _
  · exact .error rfl

/-- Registering the shared strings can fail by ids only. -/
private theorem cause_of_register (strings : SharedStrings) (rels : Relationships)
    (types : ContentTypes) : FailsWith OfPackage (strings.register rels types) := by
  unfold SharedStrings.register
  split
  · exact .ok _
  · split
    · exact .ok _
    · exact ((cause_of_add _ _ _).map _).bind fun _ => .ok _

/-- So can all that is written at the end of a call. -/
private theorem cause_of_commit (s : Session) {e : Error} {left : Session}
    (h : s.commit = .error (e, left)) : OfPackage e := by
  unfold Session.commit at h
  dsimp only at h
  split at h
  case h_1 hregister =>
    cases h
    exact cause_of_register _ _ _ _ hregister
  case h_2 => cases h

/-- What a pass reads at its start are parts of the package. -/
private theorem cause_of_startPass (s : Session) (selector : SheetSelector) :
    FailsWith OfPackage (s.startPass selector) := by
  -- The sheet is looked up, and it, its tables and its drawing are read.
  refine .bind ?_ fun info => .bind ?_ fun sheet => .bind ?_ fun tables => .bind ?_ fun _ => .ok _
  · unfold Workbook.findSheet
    split
    · exact .ok _
    · exact .error rfl
  · exact (cause_of_requireXml _ _).map _
  · unfold Table.loadAll
    split
    · exact .mapM (fun _ => (cause_of_requireXml _ _).map _) _
    · exact .ok _
  · unfold Drawing.load?
    split
    · exact .ok _
    · exact (cause_of_requireXml _ _).bind fun _ => (cause_of_loadRels _ _).bind fun _ => .ok _

namespace Fill

/-! ### Two passes side by side -/

/-- What a policy is about: the errors it forgives, and those that are none of its business. -/
structure Scope where
  own : Error → Prop
  other : Error → Prop
  /-- Whether the stricter pass leaves out no picture. -/
  quiet : Prop
  other_of_package : ∀ e, OfPackage e → other e

/-- The results of a step of two passes that were in the same state, of which the second forgives
some errors: the first failed with such an error, and the second does not, now or later; or both
came to the same. Given are the pictures left out so far, and where a result holds them. -/
inductive Forgives (S : Scope) (before : List SkippedImage) (out : α → Pass) :
    Except Failure α → Except Failure α → Prop
  | ok (a : α) (h : S.quiet → (out a).skipped = before) : Forgives S before out (.ok a) (.ok a)
  | error (f : Failure) (hf : S.other f.error) (h : S.quiet → f.left.skipped = before) :
    Forgives S before out (.error f) (.error f)
  | forgiven (f : Failure) (y : Except Failure α) (hf : S.own f.error)
    (hy : ∀ g, y = .error g → S.other g.error) : Forgives S before out (.error f) y

namespace Forgives

variable {S : Scope} {before before' : List SkippedImage} {α β : Type} {out : α → Pass}
  {out' : β → Pass} {x y : Except Failure α}

/-- The more lenient pass never fails with an error that it forgives. -/
theorem other (h : Forgives S before out x y) : ∀ g, y = .error g → S.other g.error := by
  cases h with
  | ok a h =>
    intro g hg
    cases hg
  | error f hf h =>
    rintro g ⟨⟩
    exact hf
  | forgiven f y hf hy => exact hy

/-- Where nothing may be left out, what was left out before stands for what is left out now. -/
theorem since (h : Forgives S before out x y) (hb : S.quiet → before = before') :
    Forgives S before' out x y := by
  cases h with
  | ok a h => exact .ok a fun hq => (h hq).trans (hb hq)
  | error f hf h => exact .error f hf fun hq => (h hq).trans (hb hq)
  | forgiven f y hf hy => exact .forgiven f y hf hy

/-- Steps side by side after steps side by side. -/
theorem bind {f g : α → Except Failure β} (h : Forgives S before out x y)
    (hfg : ∀ a, Forgives S (out a).skipped out' (f a) (g a)) :
    Forgives S before out' (x >>= f) (y >>= g) := by
  cases h with
  | ok a h => exact (hfg a).since h
  | error f hf h => exact .error f hf h
  | forgiven f y hf hy =>
    refine .forgiven f _ hf fun e he => ?_
    -- What comes after the forgiven error is a step of the lenient pass alone.
    cases y with
    | ok a => exact (hfg a).other e he
    | error g =>
      cases he
      exact hy _ rfl

/-- A step that asks for no policy and fails for the sake of the package. -/
theorem tryStep {p : Pass} {step : Except Error α} (h : FailsWith OfPackage step)
    (hp : p.skipped = before) :
    Forgives S before (fun _ => p) (p.tryStep step) (p.tryStep step) := by
  cases step with
  | ok a => exact .ok a fun _ => hp
  | error e => exact .error _ (S.other_of_package e (h e rfl)) fun _ => hp

end Forgives

/-- What a pass is given, under other policies. -/
def Given.withPolicies (given : Given) (strict skip : Bool) : Given :=
  { given with
    options := { given.options with strictRelationships := strict, skipBrokenImages := skip } }

namespace Given

variable (given : Given) (strict skip : Bool)

@[simp]
theorem withPolicies_values : (given.withPolicies strict skip).values = given.values := rfl

@[simp]
theorem withPolicies_files : (given.withPolicies strict skip).files = given.files := rfl

@[simp]
theorem withPolicies_imageRoot :
    (given.withPolicies strict skip).options.imageRoot = given.options.imageRoot := rfl

end Given

/-- Two ways to run a pass, of which the second forgives some errors where policies are asked for:
where the sheet gets its drawing, and where a picture is read. -/
structure Lenient (S : Scope) (given given' : Given) : Prop where
  policies : ∃ strict skip, given' = given.withPolicies strict skip
  drawing : ∀ p : Pass, Forgives S p.skipped id (p.ensureDrawing given) (p.ensureDrawing given')
  source : ∀ (p : Pass) drawing cell source, Forgives S p.skipped id
    (p.placeSource given drawing cell source) (p.placeSource given' drawing cell source)

variable {S : Scope} {given given' : Given}

/-! ### Pictures -/

/-- A sheet with relationships gets a drawing, or one of them has an id without a number. -/
private theorem cause_of_create {package : Package} {sheet sheet' : Worksheet}
    (types : ContentTypes) (h : sheet'.withRels? package = some sheet) :
    FailsWith OfPackage (Drawing.create package sheet types) := by
  -- The sheet has relationships here, whether it came with them or they were begun.
  have hrels : sheet.rels.isSome = true := (Worksheet.withRels?_eq_some h).1
  unfold Drawing.create
  split
  · rename_i hnone
    rw [hnone] at hrels
    cases hrels
  · exact (cause_of_add _ _ _).bind fun _ => .ok _

/-- Of the ways to give a sheet a drawing, only one asks for a policy. -/
private theorem forgives_ensureDrawing (p : Pass)
    (h : Forgives S p.skipped id
      (if given.options.strictRelationships then
        .error (p.fail (.missingRelationships p.sheet.name)) else .ok p)
      (if given'.options.strictRelationships then
        .error (p.fail (.missingRelationships p.sheet.name)) else .ok p)) :
    Forgives S p.skipped id (p.ensureDrawing given) (p.ensureDrawing given') := by
  unfold Pass.ensureDrawing
  split
  · exact .ok p fun _ => rfl
  · split
    · exact h
    · rename_i hsheet
      exact .bind (.tryStep (cause_of_create _ hsheet) rfl) fun _ => .ok _ fun _ => rfl

/-- Of the ways to place a picture, only one asks for a policy. -/
private theorem forgives_placeSource {strict skip : Bool}
    (hgiven : given' = given.withPolicies strict skip) (p : Pass) (drawing : Drawing)
    (cell : CellRef) (source : ImageSource)
    (h : ∀ e, Image.load given.files given.options.imageRoot source = .error e →
      Forgives S p.skipped id
        (if given.options.skipBrokenImages then
          .ok { p with skipped := p.skipped ++ [⟨source, e⟩] } else .error (p.fail e))
        (if skip then .ok { p with skipped := p.skipped ++ [⟨source, e⟩] }
          else .error (p.fail e))) :
    Forgives S p.skipped id (p.placeSource given drawing cell source)
      (p.placeSource given' drawing cell source) := by
  subst hgiven
  unfold Pass.placeSource
  dsimp only [Given.withPolicies_files, Given.withPolicies_imageRoot]
  split
  · unfold Pass.embed
    -- The picture was loaded, and embedding it can fail only by an id.
    exact .bind (.tryStep ((cause_of_add _ _ _).map _) rfl) fun _ => .ok _ fun _ => rfl
  · rename_i e he
    exact h e he

/-- Placing a picture asks for both policies: whether there is a drawing, and what becomes of a
picture that cannot be loaded. -/
theorem forgives_placePicture (hl : Lenient S given given') (p : Pass) (element : Element)
    (cell : CellRef) (value : Value) :
    Forgives S p.skipped Prod.fst (p.placePicture given element cell value)
      (p.placePicture given' element cell value) := by
  obtain ⟨strict, skip, rfl⟩ := hl.policies
  unfold Pass.placePicture
  dsimp only [Given.withPolicies_files, Given.withPolicies_imageRoot]
  split
  · exact .ok _ fun _ => rfl
  · refine (hl.drawing (p.insert element .empty).1).bind fun q => ?_
    split
    · exact .ok _ fun _ => rfl
    · exact (hl.source q _ cell _).bind fun _ => .ok _ fun _ => rfl

/-! ### Lists -/

/-- The first element of a list, with a list, a picture or a value in it. -/
private theorem forgives_fillFirst (hl : Lenient S given given') (p : Pass) (state : RowState)
    (template : Element) (cell : CellRef) (token : Placeholder) (value : Value) :
    Forgives S p.skipped Prod.fst (p.fillFirst given state template cell token value)
      (p.fillFirst given' state template cell token value) := by
  unfold Pass.fillFirst
  split
  · exact .ok _ fun _ => rfl
  · split
    · exact (forgives_placePicture hl p template cell value).bind fun _ => .ok _ fun _ => rfl
    · exact .ok _ fun _ => rfl

/-- A later element of a list, with the same three in it. -/
private theorem forgives_fillLater (hl : Lenient S given given') (p : Pass) (template : Element)
    (cell : CellRef) (token : Placeholder) (value : Value) :
    Forgives S p.skipped Prod.fst (p.fillLater given template cell token value)
      (p.fillLater given' template cell token value) := by
  unfold Pass.fillLater
  split
  · exact .ok _ fun _ => rfl
  · split
    · exact (forgives_placePicture hl p _ cell value).bind fun _ => .ok _ fun _ => rfl
    · exact .ok _ fun _ => rfl

/-- The later elements of a list: those placed before the first forgiven error are the same. -/
private theorem forgives_fillRows (hl : Lenient S given given') (row template : Element)
    (cell : CellRef) (token : Placeholder) (inside : List Bool) (index : Nat) (p : Pass)
    (state : RowState) (elements : List Value) :
    Forgives S p.skipped Prod.fst
      (Pass.fillRows given row template cell token inside index p state elements)
      (Pass.fillRows given' row template cell token inside index p state elements) := by
  induction elements generalizing index p state with
  | nil => exact .ok _ fun _ => rfl
  | cons element elements ih =>
    unfold Pass.fillRows
    exact (forgives_fillLater hl p template _ token _).bind fun r =>
      ih _ (r.1.extendTables inside _) _

/-- All the elements of a list down the column. -/
private theorem forgives_expandDown (hl : Lenient S given given') (p : Pass) (state : RowState)
    (row template : Element) (cell : CellRef) (token : Placeholder) (items : List Value) :
    Forgives S p.skipped Prod.fst (p.expandDown given state row template cell token items)
      (p.expandDown given' state row template cell token items) := by
  cases items with
  | nil => exact .ok _ fun _ => rfl
  | cons element elements =>
    unfold Pass.expandDown
    refine (forgives_fillFirst hl p state template cell token _).bind fun _ => ?_
    exact (forgives_fillRows hl row template cell token _ 1 _ _ elements).bind fun _ =>
      .ok _ fun _ => rfl

/-! ### Cells -/

/-- Moving columns leaves no picture out. -/
private theorem skipped_insertColumns (p : Pass) (state : RowState) (cell : CellRef) (cols : Int) :
    (p.insertColumns state cell cols).1.skipped = p.skipped := by
  unfold Pass.insertColumns
  split <;> rfl

/-- A cell with one placeholder and nothing else. -/
private theorem forgives_fillWhole (hl : Lenient S given given') (p : Pass) (state : RowState)
    (row element : Element) (cell : CellRef) (token : Placeholder) :
    Forgives S p.skipped Prod.fst (p.fillWhole given state row element cell token)
      (p.fillWhole given' state row element cell token) := by
  have hdrawing := hl.drawing p
  have hdown := forgives_expandDown hl
  have hplace := forgives_placePicture hl
  obtain ⟨strict, skip, rfl⟩ := hl.policies
  unfold Pass.fillWhole
  dsimp only [Given.withPolicies_values]
  -- A table may want a drawing first; then a table, a list of a path, a picture and a value.
  split
  · split
    · refine hdrawing.bind fun q => (hdown q _ row element cell token _).bind fun r => ?_
      exact .ok _ fun _ => skipped_insertColumns _ _ _ _
    · refine (hdown p _ row element cell token _).bind fun r => ?_
      exact .ok _ fun _ => skipped_insertColumns _ _ _ _
  · exact .ok _ fun _ => skipped_insertColumns _ _ _ _
  · exact (hplace p element cell _).bind fun _ => .ok _ fun _ => rfl
  · exact .ok _ fun _ => rfl

/-- Any cell: most are filled in without asking for a policy. -/
private theorem forgives_fillCell (hl : Lenient S given given') (p : Pass) (state : RowState)
    (row element : Element) (cell : CellRef) :
    Forgives S p.skipped Prod.fst (p.fillCell given state row element cell)
      (p.fillCell given' state row element cell) := by
  have hwhole := forgives_fillWhole hl p state row
  obtain ⟨strict, skip, rfl⟩ := hl.policies
  unfold Pass.fillCell
  dsimp only
  split
  · exact .ok _ fun _ => rfl
  · split
    · exact .ok _ fun _ => rfl
    · split
      · exact hwhole _ cell _
      · exact .ok _ fun _ => rfl
    · exact .ok _ fun _ => rfl

/-- The cells of a row, from left to right. -/
private theorem forgives_fillCells (hl : Lenient S given given') (row : Element)
    (number previous : Nat) (p : Pass) (state : RowState) (elements : List Element) :
    Forgives S p.skipped Prod.fst (Pass.fillCells given row number previous p state elements)
      (Pass.fillCells given' row number previous p state elements) := by
  induction elements generalizing previous p state with
  | nil => exact .ok _ fun _ => rfl
  | cons element elements ih =>
    unfold Pass.fillCells
    split
    · exact (forgives_fillCell hl p state row element _).bind fun _ => ih _ _ _
    · exact ih _ _ _

/-! ### Rows -/

/-- Finishing the generated rows leaves no picture out. -/
private theorem skipped_finishNewRows (given : Given) (p : Pass) (number anchors : Nat)
    (newRows : List Element) :
    (p.finishNewRows given number anchors newRows).skipped = p.skipped := by
  unfold Pass.finishNewRows
  dsimp only
  split <;> rfl

/-- Finishing the row itself leaves none out either. -/
private theorem skipped_finishRow (given : Given) (p : Pass) (state : RowState) (row : Element)
    (number anchors : Nat) : (p.finishRow given state row number anchors).skipped = p.skipped := by
  unfold Pass.finishRow
  dsimp only
  split <;> split
  · rfl
  · exact skipped_finishNewRows _ _ _ _ _
  · rfl
  · exact skipped_finishNewRows _ _ _ _ _

/-- A row is forgiven what its cells are. -/
private theorem forgives_fillRow (hl : Lenient S given given') (p : Pass) (source : Nat)
    (row : Element) :
    Forgives S p.skipped id (p.fillRow given source row) (p.fillRow given' source row) := by
  have hcells := forgives_fillCells hl
  obtain ⟨strict, skip, rfl⟩ := hl.policies
  unfold Pass.fillRow
  -- Finishing a row asks for neither policy.
  exact (hcells _ _ 0 p {} row.elements).bind fun _ => .ok _ fun _ => skipped_finishRow _ _ _ _ _ _

/-- Two passes over the same rows run side by side if their policies do. -/
theorem forgives_fillSourceRows (hl : Lenient S given given') (previous : Nat) (p : Pass)
    (rows : List Element) :
    Forgives S p.skipped id (Pass.fillSourceRows given previous p rows)
      (Pass.fillSourceRows given' previous p rows) := by
  induction rows generalizing previous p with
  | nil => exact .ok _ fun _ => rfl
  | cons row rows ih =>
    unfold Pass.fillSourceRows
    exact (forgives_fillRow hl p _ row).bind fun q => ih _ q

/-! ### The two policies -/

/-- Strictness about relationships is about sheets that lack them. -/
def relationshipsScope (skip : Bool) : Scope where
  own e := ∃ sheet, e = .missingRelationships sheet
  other e := e.cause ≠ .relationships
  quiet := skip = false
  other_of_package e h := by simp [h]

/-- Leaving out broken pictures is about pictures that cannot be read. -/
def picturesScope (files : ImageFiles) (root : Option String) : Scope where
  own e := ∃ source, Image.load files root source = .error e
  other e := e.cause ≠ .picture
  quiet := True
  other_of_package e h := by simp [h]

/-- The policy for relationships changes no step but the one that asks whether a sheet has usable
ones. -/
theorem lenient_relationships (given : Given) (skip : Bool) :
    Lenient (relationshipsScope skip) (given.withPolicies true skip)
      (given.withPolicies false skip) where
  policies := ⟨false, skip, rfl⟩
  drawing p := by
    refine forgives_ensureDrawing p (.forgiven _ _ ⟨_, rfl⟩ fun g hg => ?_)
    cases hg
  source p drawing cell source := by
    refine forgives_placeSource rfl p drawing cell source fun e he => ?_
    have hcause : e.cause = .picture := cause_of_load _ _ _ e he
    cases skip with
    | true => exact .ok _ fun hquiet => by cases hquiet
    | false => exact .error _ (by simp [relationshipsScope, Pass.fail, hcause]) fun _ => rfl

/-- The policy for pictures changes no step but the one at a picture that cannot be loaded. -/
theorem lenient_pictures (given : Given) (strict : Bool) :
    Lenient (picturesScope given.files given.options.imageRoot) (given.withPolicies strict false)
      (given.withPolicies strict true) where
  policies := ⟨strict, true, rfl⟩
  drawing p := by
    refine forgives_ensureDrawing p ?_
    cases strict with
    | true => exact .error _ (by simp [picturesScope, Pass.fail, Error.cause]) fun _ => rfl
    | false => exact .ok p fun _ => rfl
  source p drawing cell source := by
    refine forgives_placeSource rfl p drawing cell source fun e he => ?_
    refine .forgiven _ _ ⟨source, he⟩ fun g hg => ?_
    cases hg

end Fill

/-! ### Whole passes -/

open Fill (Scope Forgives Lenient forgives_fillSourceRows lenient_relationships lenient_pictures
  picturesScope)

namespace Session

variable {S : Scope} {options options' : FillOptions} {files : ImageFiles}
  {values : Substitutions}

/-- How the results of two passes over a session compare, of which the second forgives some errors:
the first failed with such an error, or both came to the same. -/
inductive Compared (S : Scope) : Session × Report → Session × Report → Prop
  | same (x : Session × Report) (hother : ∀ e, x.2.failure.map Prod.snd = some e → S.other e)
      (hquiet : S.quiet → x.2.skipped = []) : Compared S x x
  | forgiven (x y : Session × Report) (e : Error) (hx : x.2.failure.map Prod.snd = some e)
      (hown : S.own e) (hother : ∀ e, y.2.failure.map Prod.snd = some e → S.other e) :
      Compared S x y

/-- A first pass that fails with no forgiven error is all that happens in both. -/
theorem Compared.eq {x y : Session × Report} (h : Compared S x y)
    (hx : ∀ e, x.2.failure.map Prod.snd = some e → ¬S.own e) :
    y = x ∧ (S.quiet → y.2.skipped = []) := by
  cases h with
  | same hother hquiet => exact ⟨rfl, hquiet⟩
  | forgiven _ e he hown hother => exact absurd hown (hx e he)

/-- An error of the more lenient call is one that the option is not about. -/
theorem Compared.other {x y : Session × Report} (h : Compared S x y) {e : Error}
    (he : y.2.failure.map Prod.snd = some e) : S.other e := by
  cases h with
  | same hother hquiet => exact hother e he
  | forgiven _ _ hx hown hother => exact hother e he

/-- Passes that differ in a policy run side by side to their ends. -/
private theorem forgives_run
    (hl : ∀ heights, Lenient S { options, files, values, heights }
      { options := options', files, values, heights }) (p : Fill.Pass) :
    Forgives S p.skipped id (p.run options files values) (p.run options' files values) := by
  unfold Fill.Pass.run
  dsimp only
  exact (forgives_fillSourceRows (hl _) 0 p.withoutRows _).bind fun q => .ok _ fun _ => rfl

/-- Two passes over one sheet compare if their steps do. -/
private theorem compared_fill (options options' : FillOptions)
    (hl : ∀ heights, Lenient S { options, files, values, heights }
      { options := options', files, values, heights }) (s : Session) (selector : SheetSelector) :
    Compared S (s.fill options files selector values)
      (s.fill options' files selector values) := by
  unfold fill
  cases hstart : s.startPass selector with
  | error e =>
    refine .same _ ?_ fun _ => rfl
    rintro e ⟨⟩
    -- Reading the sheet fails for both, as it does not ask for the policy.
    exact S.other_of_package e (cause_of_startPass s selector e hstart)
  | ok p =>
    have hskipped : p.skipped = [] := by
      obtain ⟨_, _, _, _, _, _, _, _, rfl⟩ := startPass_eq_ok hstart
      rfl
    have hrun := forgives_run hl p
    dsimp only
    unfold runPass
    generalize p.run options files values = x at hrun ⊢
    generalize p.run options' files values = y at hrun ⊢
    -- What is written back after a pass can fail, but only for the package's sake.
    cases hrun with
    | ok q hq =>
      dsimp only
      cases hcommit : (s.during q).commit with
      | ok next =>
        exact .same _ (fun e he => by cases he) fun hquiet => (hq hquiet).trans hskipped
      | error left =>
        refine .same _ ?_ fun hquiet => (hq hquiet).trans hskipped
        rintro e ⟨⟩
        exact S.other_of_package _ (cause_of_commit _ hcommit)
    | error f hf hq =>
      refine .same _ ?_ fun hquiet => (hq hquiet).trans hskipped
      rintro e ⟨⟩
      exact hf
    -- From the forgiven error on only the lenient pass goes on; whatever it fails for later is not
    -- the option's cause.
    | forgiven f y hf hy =>
      refine .forgiven _ _ f.error rfl hf fun e he => ?_
      cases y with
      | error g =>
        cases he
        exact hy g rfl
      | ok q =>
        dsimp only at he
        cases hcommit : (s.during q).commit with
        | ok next =>
          rw [hcommit] at he
          cases he
        | error left =>
          rw [hcommit] at he
          cases he
          exact S.other_of_package _ (cause_of_commit _ hcommit)

/-- Each of the two policies for errors makes a difference only to a pass that fails with an error
of its own. Strictness about relationships: to one that fails for lack of them. Leaving out broken
pictures: to one that fails because a picture cannot be read; no other pass leaves any out, and
whatever ends a pass that leaves them out is nothing that reading a picture can give. -/
theorem policies_act_on_own_errors (options : FillOptions) (files : ImageFiles) (s : Session)
    (selector : SheetSelector) (values : Substitutions) :
    let strict := s.fill { options with strictRelationships := true } files selector values
    let lenient := s.fill { options with strictRelationships := false } files selector values
    let failing := s.fill { options with skipBrokenImages := false } files selector values
    let skipping := s.fill { options with skipBrokenImages := true } files selector values
    (strict.2.failure = none → lenient = strict) ∧
    (∀ e, strict.2.failure.map Prod.snd = some e → (∀ sheet, e ≠ .missingRelationships sheet) →
      lenient = strict) ∧
    (failing.2.failure = none → skipping = failing ∧ skipping.2.skipped = []) ∧
    (∀ e, failing.2.failure.map Prod.snd = some e →
      (∀ source, Image.load files options.imageRoot source ≠ .error e) →
      skipping = failing ∧ skipping.2.skipped = []) ∧
    ∀ e, skipping.2.failure.map Prod.snd = some e →
      ∀ source, Image.load files options.imageRoot source ≠ .error e := by
  have hstrict := compared_fill { options with strictRelationships := true }
    { options with strictRelationships := false } (fun heights => lenient_relationships
      { options, files, values, heights } options.skipBrokenImages) s selector
  have hskip := compared_fill (S := picturesScope files options.imageRoot)
    { options with skipBrokenImages := false } { options with skipBrokenImages := true }
    (fun heights => lenient_pictures { options, files, values, heights }
      options.strictRelationships) s selector
  dsimp only
  generalize s.fill { options with strictRelationships := true } files selector values = strict,
    s.fill { options with strictRelationships := false } files selector values = lenient,
    s.fill { options with skipBrokenImages := false } files selector values = failing,
    s.fill { options with skipBrokenImages := true } files selector values = skipping
    at hstrict hskip
  -- For each option the first two parts are one comparison, once without an error and once with one
  -- of another cause.
  refine ⟨fun hnone => ?_, fun e he hother => ?_, fun hnone => ?_, fun e he hother => ?_, ?_⟩
  · exact (hstrict.eq fun e he => by simp [hnone] at he).1
  · refine (hstrict.eq fun e' he' => ?_).1
    cases he.symm.trans he'
    rintro ⟨sheet, rfl⟩
    exact hother sheet rfl
  · obtain ⟨hsame, hquiet⟩ := hskip.eq fun e he => by simp [hnone] at he
    exact ⟨hsame, hquiet trivial⟩
  · obtain ⟨hsame, hquiet⟩ := hskip.eq fun e' he' => by
      cases he.symm.trans he'
      rintro ⟨source, hsource⟩
      exact hother source hsource
    exact ⟨hsame, hquiet trivial⟩
  · intro e he source hsource
    exact hskip.other he (cause_of_load _ _ _ e hsource)

/-- The session of three sheets with a placeholder for a picture. -/
private def picturesSession : Session :=
  { brokenSession with strings := { brokenSession.strings with table := .ofList ["${image:x}"] } }

/-- A picture that can be read is placed under either policy, and a sheet whose part is missing is
reported under either. -/
theorem policies_act_on_own_errors_sample :
    ∃ placed missing : Session × Report,
      placed.2.failure = none ∧
      picturesSession.fill { strictRelationships := true } (fun _ => none) (.name "First")
        [("x", .image (.bytes pixel))] = placed ∧
      picturesSession.fill {} (fun _ => none) (.name "First") [("x", .image (.bytes pixel))] =
        placed ∧
      missing.2.failure = some (.name "Broken", .missingPart "broken.xml") ∧
      picturesSession.fill {} (fun _ => none) (.name "Broken") [] = missing ∧
      picturesSession.fill { skipBrokenImages := true } (fun _ => none) (.name "Broken") [] =
        missing ∧ missing.2.skipped = [] := by
  have hplaced := policies_act_on_own_errors {} (fun _ => none) picturesSession (.name "First")
    [("x", .image (.bytes pixel))]
  have hmissing := policies_act_on_own_errors {} (fun _ => none) picturesSession (.name "Broken") []
  have hok : (picturesSession.fill { strictRelationships := true } (fun _ => none) (.name "First")
      [("x", .image (.bytes pixel))]).2.failure = none := by decide +kernel
  have hfails : (picturesSession.fill {} (fun _ => none) (.name "Broken") []).2.failure =
      some (.name "Broken", .missingPart "broken.xml") := by decide +kernel
  have hreads : ∀ source, Image.load (fun _ => none) none source ≠
      .error (.missingPart "broken.xml") := by
    intro source hsource
    cases cause_of_load _ _ _ _ hsource
  obtain ⟨hsame, hskipped⟩ := hmissing.2.2.2.1 _ (by rw [hfails]; rfl) hreads
  exact ⟨_, _, hok, rfl, hplaced.1 hok, hfails, rfl, hsame, hsame ▸ hskipped⟩

end Session

end SheetTemplate
