import SheetTemplate.Proofs.LinkTargets

/-!
# What a filled target reads as

The target of a link whose text a value changes is written with letters, digits, the marks of a URI
and escapes only, whatever the text. What comes out is UTF-8, and it decodes to the text: a value
that looks like an escape is one no more. A target whose text stays is not written anew.

## Key results

- `isEncoded_encode`: what an encoded text is made of
- `decodeText?_encode`: an encoded text is UTF-8 and reads as the text
- `filled_links_read_back`: what becomes of the links of a sheet
-/

namespace SheetTemplate

/-! ### Encoded texts -/

namespace Text.Percent

/-- The digits that escapes are written with. -/
def escapeDigits : List Char := "0123456789ABCDEF".toList

/-- A text of letters, digits and marks that are kept, and of escapes. -/
inductive IsEncoded : List Char → Prop where
  | nil : IsEncoded []
  | kept {c : Char} {r : List Char} (hc : c.isAlphanum = true ∨ c ∈ keptMarks)
      (hr : IsEncoded r) : IsEncoded (c :: r)
  | escape {a b : Char} {r : List Char} (ha : a ∈ escapeDigits) (hb : b ∈ escapeDigits)
      (hr : IsEncoded r) : IsEncoded ('%' :: a :: b :: r)

/-- The text that an encoded text stands for, if the bytes are UTF-8. -/
def decodeText? (cs : List Char) : Option (List Char) := Utf8.strict? (Utf8.glyphs (decode cs))

/-- A digit below 16 is one that escapes are written with. -/
theorem hexDigit_mem_escapeDigits {n : Nat} (h : n < 16) : hexDigit n ∈ escapeDigits := by
  have hall : ∀ i : Fin 16, hexDigit i ∈ escapeDigits := by decide
  exact hall ⟨n, h⟩

/-- Escapes before an encoded text leave it encoded. -/
private theorem isEncoded_escapes (bytes : List UInt8) {r : List Char} (hr : IsEncoded r) :
    IsEncoded (bytes.flatMap escape ++ r) := by
  induction bytes with
  | nil => exact hr
  | cons b bytes ih =>
    have hhigh : b.toNat / 16 < 16 := by
      have := b.toNat_lt
      omega
    have hlow : b.toNat % 16 < 16 := Nat.mod_lt _ (by decide)
    exact .escape (hexDigit_mem_escapeDigits hhigh) (hexDigit_mem_escapeDigits hlow) ih

/-- A text that is encoded is encoded. -/
theorem isEncoded_encode (cs : List Char) : IsEncoded (encode cs) := by
  induction cs with
  | nil => exact .nil
  | cons c r ih =>
    rw [encode] at ih
    rw [encode, List.flatMap_cons]
    split
    · rename_i hkept
      rw [isKept, Bool.or_eq_true, List.contains_iff_mem] at hkept
      exact .kept hkept ih
    · exact isEncoded_escapes _ ih

/-- An encoded text is UTF-8, and reads as the text. -/
theorem decodeText?_encode (cs : List Char) : decodeText? (encode cs) = some cs := by
  rw [decodeText?, decode_encode, Utf8.glyphs_encode, Utf8.strict?_map_char]

end Text.Percent

/-! ### Links -/

namespace Fill

open Text.Percent (IsEncoded decodeText decodeText? encode)
open Xml (Element)

/-- The text that the target of a link is read as. -/
def targetText (target : String) : String := String.ofList (decodeText target.toList)

/-- A target is written anew only if its text changes. -/
theorem fillTarget_eq (values : Substitutions) (target : String) :
    fillTarget values target =
      if splice values (targetText target) = targetText target then target
      else String.ofList (encode (splice values (targetText target)).toList) := rfl

/-- A link with a target has it filled. -/
theorem fillLink_eq (values : Substitutions) {rel : Element} {target : String}
    (hlink : Relationships.hasType "hyperlink" rel = true)
    (htarget : rel.attr? "Target" = some target) :
    fillLink values rel = rel.setAttr "Target" (fillTarget values target) := by
  rw [fillLink, if_pos hlink, htarget]

/-- What becomes of a relationship of a sheet that is filled. -/
structure LinkFilled (values : Substitutions) (rel rel' : Element) : Prop where
  /-- What is no link to another site stays as it is. -/
  other : Relationships.hasType "hyperlink" rel = false ∨ rel.attr? "Target" = none → rel' = rel
  /-- So does a link to a site whose text no value changes. -/
  kept : ∀ target, rel.attr? "Target" = some target →
    splice values (targetText target) = targetText target → rel' = rel
  /-- Any other one gets a target that reads as the text with the values in it. -/
  filled : Relationships.hasType "hyperlink" rel = true →
    ∀ target, rel.attr? "Target" = some target →
      splice values (targetText target) ≠ targetText target →
      ∃ target', rel' = rel.setAttr "Target" target' ∧ IsEncoded target'.toList ∧
        decodeText? target'.toList = some (splice values (targetText target)).toList

/-- What becomes of a link is as the law says. -/
theorem linkFilled_fillLink (values : Substitutions) (rel : Element) :
    LinkFilled values rel (fillLink values rel) where
  other h := by
    unfold fillLink
    split
    · rename_i hlink
      rw [h.resolve_left (by simp [hlink])]
    · rfl
  kept target htarget hsame := by
    -- A target stays if its text does, and a link of another type is not touched.
    cases hlink : Relationships.hasType "hyperlink" rel with
    | false => rw [fillLink, if_neg (by simp [hlink])]
    | true =>
      rw [fillLink_eq values hlink htarget, fillTarget_eq, if_pos hsame,
        Element.setAttr_of_attr? htarget]
  filled hlink target htarget hne := by
    rw [fillLink_eq values hlink htarget, fillTarget_eq, if_neg hne]
    refine ⟨_, rfl, ?_, ?_⟩
    · rw [String.toList_ofList]
      exact Text.Percent.isEncoded_encode _
    · rw [String.toList_ofList, Text.Percent.decodeText?_encode]

/-- When a sheet is finished, and so by every pass, each link whose text a value changes gets a
target of letters, digits, marks and escapes that is UTF-8 and reads as the text with the values in
it. All other relationships of the sheet are left as they are. -/
theorem filled_links_read_back (given : Given) (p : Pass) :
    List.Forall₂ (LinkFilled given.values) p.sheetLinks (p.finishSheet given).sheetLinks ∧
      ∀ (options : FillOptions) (files : ImageFiles) (q : Pass),
        p.run options files given.values = .ok q →
        ∃ filled drawn, q.sheetLinks = filled ++ drawn ∧
          List.Forall₂ (LinkFilled given.values) p.sheetLinks filled ∧
          ∀ rel ∈ drawn, ∃ d, p.drawing = none ∧ q.drawing = some d ∧
            Beside "drawings" rel d.path := by
  have hfilled : List.Forall₂ (LinkFilled given.values) p.sheetLinks
      (p.sheetLinks.map (fillLink given.values)) := by
    rw [List.forall₂_map_right_iff, List.forall₂_same]
    exact fun rel _ => linkFilled_fillLink given.values rel
  refine ⟨Pass.sheetLinks_finishSheet given p ▸ hfilled, fun options files q hrun => ?_⟩
  obtain ⟨-, drawn, -, -, -, -, -, hlinks, hdrawn, -⟩ := Pass.linked_of_run hrun
  exact ⟨_, drawn, hlinks, hfilled, hdrawn⟩

/-- A value with a letter outside ASCII and with what looks like an escape. -/
theorem filled_links_read_back_sample :
    ∃ q : Pass,
      (linkedPass "http://x/?q=%20$%7Bid%7D&r=a").run {} (fun _ => none)
        [("id", .text "ü%41")] = .ok q ∧
      ∃ target, q.sheetLinks[0]? =
          some ((siteLink "http://x/?q=%20$%7Bid%7D&r=a").setAttr "Target" target) ∧
        IsEncoded target.toList ∧
        decodeText? target.toList = some "http://x/?q= ü%41&r=a".toList := by
  obtain ⟨q, hrun⟩ : ∃ q, (linkedPass "http://x/?q=%20$%7Bid%7D&r=a").run {} (fun _ => none)
      [("id", .text "ü%41")] = .ok q := ⟨_, rfl⟩
  -- The value has an escape in it, which is taken for what it is.
  obtain ⟨-, hpass⟩ := filled_links_read_back
    ⟨{}, fun _ => none, [("id", .text "ü%41")], []⟩ (linkedPass "http://x/?q=%20$%7Bid%7D&r=a")
  obtain ⟨filled, drawn, hlinks, hfilled, -⟩ := hpass {} (fun _ => none) q hrun
  have hone : (linkedPass "http://x/?q=%20$%7Bid%7D&r=a").sheetLinks =
      [siteLink "http://x/?q=%20$%7Bid%7D&r=a"] := rfl
  rw [hone] at hfilled
  cases hfilled with
  | cons hlink hnone =>
    obtain ⟨target, rfl, hencoded, hread⟩ :=
      hlink.filled (by decide +kernel) "http://x/?q=%20$%7Bid%7D&r=a" (by decide +kernel)
        (by decide +kernel)
    refine ⟨q, hrun, target, by rw [hlinks]; rfl, hencoded, hread.trans (by decide +kernel)⟩

end Fill

end SheetTemplate
