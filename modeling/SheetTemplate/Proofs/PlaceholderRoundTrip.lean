import SheetTemplate.Proofs.PlaceholderExtraction
import SheetTemplate.Proofs.ReferenceRoundTrip

/-!
# Placeholders read as they were written

A placeholder is written from a type, a name, a key and a subtype, all but the name optional. Colons
divide type, path and subtype, and a point divides the path into name and key. The type may be left
out, but its colon only if no subtype follows: a single colon stands behind a type. As long as the
parts do not have the characters that divide them, each is read in its own place.

## Key results

- `Form`, `Form.text`: the parts of a placeholder, and how they are written
- `parts_body`, `nameAndKey_path`: what a written body is divided into
- `placeholders_read_back`: a written placeholder is read back
-/

namespace SheetTemplate

/-- Joined pieces have no characters but their own and the one between them. -/
theorem Text.mem_join {c x : Char} {ps : List (List Char)} (h : x ∈ join c ps) :
    x = c ∨ ∃ p ∈ ps, x ∈ p := by
  -- Between two parts stands the character.
  induction ps with
  | nil => cases h
  | cons p ps ih =>
    cases ps with
    | nil => exact .inr ⟨p, List.mem_cons_self, h⟩
    | cons q ps =>
      rw [join, List.mem_append, List.mem_cons] at h
      rcases h with h | h | h
      · exact .inr ⟨p, List.mem_cons_self, h⟩
      · exact .inl h
      · obtain hx | ⟨p', hp', hx⟩ := ih h
        · exact .inl hx
        · exact .inr ⟨p', List.mem_cons_of_mem _ hp', hx⟩

namespace Placeholder

open Text (pieces join)

/-- The parts that a placeholder is written from. -/
structure Form where
  /-- The type, which is empty if there is none. -/
  type : String
  name : String
  key : Option String
  subtype : Option String

/-- A word without colons and braces. -/
def IsPlain (word : String) : Prop := ∀ c ∈ word.toList, c ≠ ':' ∧ c ≠ '{' ∧ c ≠ '}'

instance (word : String) : Decidable (IsPlain word) :=
  List.decidableBAll (fun c => c ≠ ':' ∧ c ≠ '{' ∧ c ≠ '}') word.toList

namespace Form

/-- Parts that are kept apart by what is written between them. -/
structure Valid (f : Form) : Prop where
  type : IsPlain f.type
  name : IsPlain f.name
  name_ne : f.name ≠ ""
  noPoint : '.' ∉ f.name.toList
  key : ∀ key ∈ f.key, key ≠ "" ∧ IsPlain key
  subtype : ∀ word ∈ f.subtype, word ≠ "" ∧ IsPlain word

instance (f : Form) : Decidable f.Valid :=
  decidable_of_iff
    (IsPlain f.type ∧ IsPlain f.name ∧ f.name ≠ "" ∧ '.' ∉ f.name.toList ∧
      (∀ key ∈ f.key, key ≠ "" ∧ IsPlain key) ∧ ∀ word ∈ f.subtype, word ≠ "" ∧ IsPlain word)
    ⟨fun ⟨type, name, name_ne, noPoint, key, subtype⟩ =>
        ⟨type, name, name_ne, noPoint, key, subtype⟩,
      fun h => ⟨h.type, h.name, h.name_ne, h.noPoint, h.key, h.subtype⟩⟩

/-- The name, and the key after a point. -/
def path (f : Form) : String := f.key.elim f.name (f.name ++ "." ++ ·)

/-- The type with its colon, left out if there is neither a type nor a subtype. -/
def typeText (f : Form) : String :=
  if f.type = "" ∧ f.subtype = none then "" else f.type ++ ":"

/-- The placeholder as it is written. -/
def text (f : Form) : String :=
  "$\x7b" ++ f.typeText ++ f.path ++ f.subtype.elim "" (":" ++ ·) ++ "\x7d"

/-- The kind that a type means. A picture may also be asked for by the subtype alone. -/
def kind (f : Form) : PlaceholderKind :=
  if f.type = "" then if f.subtype = some "image" then .image else .normal
  else if f.type = "normal" then .normal
  else if f.type = "table" then .table
  else if f.type = "image" then .image
  else .other f.type

/-- What colons divide a body into. -/
def fields (f : Form) : List (List Char) :=
  (if f.type = "" ∧ f.subtype = none then [] else [f.type.toList]) ++
    f.path.toList :: (f.subtype.map String.toList).toList

/-- The body that is written. -/
def body (f : Form) : List Char := join ':' f.fields

variable {f : Form}

/-- A form is written as its body between the braces. -/
theorem text_eq (f : Form) : f.text = String.ofList (written f.body) := by
  refine String.toList_inj.1 ?_
  obtain ⟨type, name, key, subtype⟩ := f
  cases subtype with
  | none =>
    by_cases htype : type = "" <;>
      simp [text, typeText, body, fields, join, written, htype]
  | some word => simp [text, typeText, body, fields, join, written]

/-- A path is the name, with the key behind a point. -/
theorem toList_path (f : Form) :
    f.path.toList = f.name.toList ++ f.key.elim [] ('.' :: ·.toList) := by
  unfold path
  cases f.key <;> simp

/-! ### The fields of a body -/

/-- Neither the name nor the key has what divides a body. -/
private theorem isPlain_path (h : f.Valid) : IsPlain f.path := by
  unfold IsPlain
  rw [toList_path]
  intro c hc
  rcases List.mem_append.1 hc with hc | hc
  · exact h.name c hc
  · cases hkey : f.key with
    | none => simp [hkey] at hc
    | some key =>
      rw [hkey, Option.elim_some, List.mem_cons] at hc
      rcases hc with rfl | hc
      · decide
      · exact (h.key key hkey).2 c hc

/-- Colons and braces are in no field. -/
private theorem plain_of_mem_fields (h : f.Valid) {field : List Char} (hfield : field ∈ f.fields) :
    ∀ c ∈ field, c ≠ ':' ∧ c ≠ '{' ∧ c ≠ '}' := by
  rw [fields, List.mem_append, List.mem_cons] at hfield
  rcases hfield with hfield | rfl | hfield
  · split at hfield
    · cases hfield
    · rw [List.mem_singleton.1 hfield]
      exact h.type
  · exact isPlain_path h
  · obtain ⟨word, hword, rfl⟩ := Option.map_eq_some_iff.1 (Option.mem_toList.1 hfield)
    exact (h.subtype word hword).2

/-- A body is divided into the fields that it was written from. -/
private theorem pieces_body (h : f.Valid) : pieces ':' f.body = f.fields :=
  Text.pieces_join (by simp [fields]) fun _ hfield hcolon =>
    (plain_of_mem_fields h hfield _ hcolon).1 rfl

/-- What is written between the braces is a body. -/
private theorem isBody_body (h : f.Valid) : IsBody f.body := by
  have hbrace : ∀ c ∈ f.body, c ≠ '{' ∧ c ≠ '}' := by
    intro c hc
    obtain rfl | ⟨field, hfield, hc⟩ := Text.mem_join hc
    · decide
    · exact (plain_of_mem_fields h hfield c hc).2
  refine ⟨fun hnil => ?_, fun hopen => (hbrace _ hopen).1 rfl,
    fun hclose => (hbrace _ hclose).2 rfl⟩
  -- An empty body has one field, which is empty; but the path has the name.
  have hpath : f.path.toList ∈ f.fields := by simp [fields]
  rw [← pieces_body h, hnil, pieces, List.mem_singleton, toList_path] at hpath
  exact h.name_ne (String.toList_inj.1 (List.append_eq_nil_iff.1 hpath).1)

/-- A body falls into its type, its path and its subtype. -/
theorem parts_body (h : f.Valid) :
    parts f.body = (f.type.toList, f.path.toList, f.subtype.map String.toList) := by
  rw [parts, pieces_body h, fields]
  by_cases hleft : f.type = "" ∧ f.subtype = none
  · simp [hleft]
  · rw [if_neg hleft]
    cases hsubtype : f.subtype with
    | none => simp
    | some word =>
      have hword := (h.subtype word hsubtype).1
      simp [hword]

/-- The point that is written after the name is the first one of the path. -/
theorem nameAndKey_path (h : f.Valid) :
    nameAndKey f.path.toList = (f.name.toList, f.key.map String.toList) := by
  rw [toList_path, nameAndKey]
  cases hkey : f.key with
  | none => simp [Text.cutFirst?_eq_none.2 h.noPoint]
  | some key =>
    have hne := (h.key key hkey).1
    simp [Text.cutFirst?_append _ h.noPoint, hne]

/-! ### Reading -/

/-- The placeholder that is meant. -/
def placeholder (f : Form) : Placeholder where
  kind := f.kind
  name := f.name
  key := f.key
  subtype := f.subtype
  text := f.text
  full := true

/-- The kind is that of the subtype, or else that of the type. -/
private theorem kind_eq (f : Form) :
    (if f.type.toList.isEmpty && f.subtype.map String.toList == some "image".toList then
      PlaceholderKind.image else .ofType f.type) = f.kind := by
  have himage : (f.subtype.map String.toList == some "image".toList) =
      decide (f.subtype = some "image") := by
    rw [Bool.eq_iff_iff, beq_iff_eq, decide_eq_true_eq]
    exact (Option.map_injective fun _ _ => String.toList_inj.1).eq_iff (b := some "image")
  rw [himage]
  unfold kind PlaceholderKind.ofType
  by_cases htype : f.type = ""
  · simp [htype]
  · simp [htype]

/-- A valid form is read as its placeholder. -/
private theorem ofBody?_body (h : f.Valid) : ofBody? true f.body = some f.placeholder := by
  have hname : f.name.toList.isEmpty = false := by simp [h.name_ne]
  simp only [ofBody?, parts_body h, nameAndKey_path h, hname, String.ofList_toList, ← text_eq,
    kind_eq]
  simp [placeholder, Function.comp_def]

end Form

/-- A placeholder that was written from parts is read as one placeholder, the whole text, with these
parts. -/
theorem placeholders_read_back (f : Form) (h : f.Valid) :
    ∃ p, extract f.text = [p] ∧ p.full = true ∧ p.text = f.text ∧ p.name = f.name ∧
      p.key = f.key ∧ p.subtype = f.subtype ∧ p.path = f.path ∧ p.kind = f.kind := by
  refine ⟨f.placeholder, ?_, rfl, rfl, rfl, rfl, rfl, ?_, rfl⟩
  · rw [f.text_eq, extract_written (Form.isBody_body h), Form.ofBody?_body h, Option.toList_some]
  · unfold Placeholder.path Form.placeholder Form.path
    cases f.key <;> rfl

/-- A key that begins with a point, and a picture that only the subtype asks for. -/
theorem placeholders_read_back_sample :
    Form.Valid ⟨"", "rows", some ".x", some "image"⟩ ∧
      ∃ p, extract "$\x7b:rows..x:image\x7d" = [p] ∧ p.full = true ∧ p.name = "rows" ∧
        p.key = some ".x" ∧ p.path = "rows..x" ∧ p.kind = .image := by
  have hvalid : Form.Valid ⟨"", "rows", some ".x", some "image"⟩ := by decide
  obtain ⟨p, hp, hfull, -, hname, hkey, -, hpath, hkind⟩ := placeholders_read_back _ hvalid
  exact ⟨hvalid, p, hp, hfull, hname, hkey, hpath, hkind⟩

end Placeholder

end SheetTemplate
