import SheetTemplate.Proofs.AddedRelationships
import SheetTemplate.Proofs.PercentEscapes
import SheetTemplate.Proofs.PlaceholderExtraction

/-!
# Filling the targets of links

The target of a link is decoded, filled as a text, and encoded again. The value stands where the
placeholder stood, and what stands around it reads as before. But an escaped reserved character
around it is a bare one afterwards, which divides the target where nothing divided it before.

## Key results

- `splice_around`: a text with one placeholder
- `fillTarget_around`: a target with one placeholder
- `link_filled_in_place`: what a pass does to the target, and when it is divided as before
-/

namespace SheetTemplate

/-! ### Texts with one placeholder -/

namespace Placeholder

variable {before after body : List Char}

/-- No placeholder begins in a text without opening braces, unless one comes next. -/
theorem segments_append {t : List Char} (hbefore : '{' ∉ before) (ht : t.head? ≠ some '{') :
    segments (before ++ t) = before.map .char ++ segments t := by
  induction before with
  | nil => rfl
  | cons c r ih =>
    obtain ⟨-, hr⟩ := not_or.1 (List.mem_cons.not.1 hbefore)
    -- No body begins in front: its brace would be in the text, or at the beginning of what follows.
    have hnone : bodyAt? (c :: (r ++ t)) = none := by
      rw [Option.eq_none_iff_forall_ne_some]
      rintro ⟨body, rest⟩ hfound
      have hnext : r ++ t = '{' :: (body ++ ['}'] ++ rest) :=
        (List.cons.inj (eq_of_bodyAt? hfound).1).2
      cases r with
      | nil => exact ht (congrArg List.head? hnext)
      | cons d r => exact hr ((List.cons.inj hnext).1 ▸ List.mem_cons_self)
    rw [List.cons_append, segments_cons hnone, ih hr]
    rfl

/-- A text with one placeholder. -/
theorem segments_around (hbody : IsBody body) (hbefore : '{' ∉ before) (hafter : '{' ∉ after) :
    segments (before ++ (written body ++ after)) =
      before.map .char ++ .body body :: after.map .char := by
  have hnil : segments [] = [] := by simp [segments, bodyAt?]
  have hplain : segments after = after.map .char := by
    simpa [hnil] using segments_append (t := []) hafter (by simp)
  rw [segments_append hbefore (by simp [written]), segments_of_bodyAt? (bodyAt?_written hbody _),
    hplain]

/-- The placeholder of such a text is the only one. -/
theorem extract_around {p : Placeholder} (hp : ofBody? false body = some p)
    (hbody : IsBody body) (hbefore : '{' ∉ before) (hafter : '{' ∉ after) :
    ∃ full, extract (String.ofList (before ++ (written body ++ after))) = [{ p with full }] := by
  have hnone (s : List Char) (f : List Char → Option Placeholder) :
      (s.map Segment.char).filterMap (fun x => x.body?.bind f) = [] := by
    simp [Segment.body?]
  refine ⟨written body == before ++ (written body ++ after), ?_⟩
  rw [extract_eq_filterMap, String.toList_ofList, segments_around hbody hbefore hafter,
    List.filterMap_append, hnone, List.nil_append, List.filterMap_cons, hnone, Segment.body?,
    Option.bind_some, ofBody?_eq_map, hp]
  rfl

/-- How a placeholder can stand in the target of a link: its body, and the signs around it as they
are or escaped. -/
inductive Spelled (p : Placeholder) : List Char → Prop where
  | mk {dollar opening body closing : List Char} (hdollar : Text.Percent.Spells '$' dollar)
      (hopening : Text.Percent.Spells '{' opening) (hclosing : Text.Percent.Spells '}' closing)
      (hbody : IsBody (Text.Percent.decodeText body))
      (hp : ofBody? false (Text.Percent.decodeText body) = some p) :
      Spelled p (dollar ++ (opening ++ (body ++ closing)))

end Placeholder

namespace Fill

open Placeholder (written)
open Text.Percent (decodeText encode reserved escaped isReserved)
open Xml (Element)

/-- The value stands where the placeholder stood, and the rest of the text stays. -/
theorem splice_around (values : Substitutions) {p : Placeholder} {before body after : List Char}
    (hp : Placeholder.ofBody? false body = some p) (hbody : Placeholder.IsBody body)
    (hbefore : '{' ∉ before) (hafter : '{' ∉ after) :
    splice values (String.ofList (before ++ (written body ++ after))) =
      String.ofList (before ++ ((spliceText values p).toList ++ after)) := by
  have hword : p.text.toList = written body := by
    rw [Placeholder.text_of_ofBody? hp, String.toList_ofList]
  -- The placeholder occurs once, since all its occurrences begin with a brace.
  have hne : written body ≠ [] := List.cons_ne_nil _ _
  have hfront : Text.occurrences (written body) (before ++ (written body ++ after)) =
      Text.occurrences (written body) (written body ++ after) :=
    Placeholder.occurrences_written_append hbefore (by simp [written])
  have hback : Text.occurrences (written body) (after ++ []) =
      Text.occurrences (written body) [] :=
    Placeholder.occurrences_written_append hafter (by simp)
  have hrest := Text.replaceAll_append_of_occurrences hback (spliceText values p).toList
  rw [List.append_nil] at hrest
  obtain ⟨full, hextract⟩ := Placeholder.extract_around hp hbody hbefore hafter
  rw [splice, hextract, List.foldl_cons, List.foldl_nil, spliceOne, String.toList_ofList]
  show String.ofList (Text.replaceAll p.text.toList (spliceText values p).toList _) = _
  rw [hword, Text.replaceAll_append_of_occurrences hfront, Text.replaceAll_append_word hne, hrest]
  simp [Text.replaceAll, Text.replaceFrom]

/-- What a target with one placeholder is decoded to. -/
private theorem decodeText_around (before body after : List Char)
    {dollar opening closing : List Char} (hdollar : Text.Percent.Spells '$' dollar)
    (hopening : Text.Percent.Spells '{' opening) (hclosing : Text.Percent.Spells '}' closing) :
    decodeText (before ++ (dollar ++ (opening ++ (body ++ (closing ++ after))))) =
      decodeText before ++ (written (decodeText body) ++ decodeText after) := by
  have hopen := Text.Percent.decodeText_spells hopening (by decide) (by decide) (by decide) []
    (body ++ (closing ++ after))
  rw [List.nil_append] at hopen
  rw [Text.Percent.decodeText_spells hdollar (by decide) (by decide) (by decide), hopen,
    Text.Percent.decodeText_spells hclosing (by decide) (by decide) (by decide)]
  simp [written, decodeText, Text.Percent.decode, Text.Utf8.lossy]

variable {values : Substitutions} {token : Placeholder} {before spelling after : List Char}

/-- A target with one placeholder: as it was if the value is what the placeholder is written as, and
otherwise encoded anew. -/
theorem fillTarget_around (hspelling : token.Spelled spelling) (hbefore : '{' ∉ decodeText before)
    (hafter : '{' ∉ decodeText after) :
    fillTarget values (String.ofList (before ++ spelling ++ after)) =
      if spliceText values token = token.text then String.ofList (before ++ spelling ++ after)
      else String.ofList (encode (decodeText before) ++ encode (spliceText values token).toList ++
        encode (decodeText after)) := by
  obtain @⟨dollar, opening, body, closing, hdollar, hopening, hclosing, hbody, hp⟩ := hspelling
  have hdecoded : decodeText (before ++ (dollar ++ (opening ++ (body ++ closing))) ++ after) =
      decodeText before ++ (written (decodeText body) ++ decodeText after) := by
    simpa only [List.append_assoc] using
      decodeText_around before body after hdollar hopening hclosing
  -- The text changes exactly if that of the placeholder does.
  have hsame : String.ofList (decodeText before ++ ((spliceText values token).toList ++
        decodeText after)) =
      String.ofList (decodeText before ++ (written (decodeText body) ++ decodeText after)) ↔
      spliceText values token = token.text := by
    rw [String.ofList_inj, List.append_cancel_left_eq, List.append_cancel_right_eq,
      Placeholder.text_of_ofBody? hp, ← String.toList_inj, String.toList_ofList]
  rw [fillTarget, String.toList_ofList, hdecoded, splice_around values hp hbody hbefore hafter]
  simp only [hsame]
  split
  · rfl
  · rw [String.toList_ofList, Text.Percent.encode_append, Text.Percent.encode_append,
      List.append_assoc]

/-- A spelling of a placeholder is decoded to its text. -/
theorem decodeText_spelled (hspelling : token.Spelled spelling) :
    decodeText spelling = token.text.toList := by
  obtain @⟨dollar, opening, body, closing, hdollar, hopening, hclosing, hbody, hp⟩ := hspelling
  have hdecoded := decodeText_around [] body [] hdollar hopening hclosing
  have hnil : decodeText [] = [] := rfl
  rw [Placeholder.text_of_ofBody? hp, String.toList_ofList]
  simpa [hnil] using hdecoded

/-- A pass fills the links that a sheet has, where they stand. -/
private theorem sheetLinks_of_run {options : FillOptions} {files : ImageFiles} {p q : Pass}
    (hrun : p.run options files values = .ok q) {i : Nat} {rel : Element}
    (hrel : p.sheetLinks[i]? = some rel) : q.sheetLinks[i]? = some (fillLink values rel) := by
  obtain ⟨-, drawn, -, -, -, -, -, hlinks, -⟩ := Pass.linked_of_run hrun
  have hlt : i < (p.sheetLinks.map (fillLink values)).length := by
    rw [List.length_map]
    exact (List.getElem?_eq_some_iff.1 hrel).1
  rw [hlinks, List.getElem?_append_left hlt, List.getElem?_map, hrel, Option.map_some]

/-- A pass puts the value where a placeholder stands in the target of a link. What stands around it
reads as before, and the rest of the link is kept. Unless the value is what the placeholder is
written as, the target is divided as before exactly if no reserved character around the placeholder
was escaped. -/
theorem link_filled_in_place {options : FillOptions} {files : ImageFiles} {p q : Pass}
    (hrun : p.run options files values = .ok q) {i : Nat} {rel : Element}
    (hrel : p.sheetLinks[i]? = some rel) (hlink : Relationships.hasType "hyperlink" rel = true)
    (htarget : rel.attr? "Target" = some (String.ofList (before ++ spelling ++ after)))
    (hspelling : token.Spelled spelling) (hbefore : '{' ∉ decodeText before)
    (hafter : '{' ∉ decodeText after) :
    ∃ before' filled after',
      q.sheetLinks[i]? =
        some (rel.setAttr "Target" (String.ofList (before' ++ filled ++ after'))) ∧
      decodeText before' = decodeText before ∧
      decodeText filled = (spliceText values token).toList ∧
      decodeText after' = decodeText after ∧
      (spliceText values token = token.text →
        before' = before ∧ filled = spelling ∧ after' = after) ∧
      (spliceText values token ≠ token.text →
        filled = encode (spliceText values token).toList ∧
        (reserved before' = reserved before ↔
          ∀ b ∈ escaped before, isReserved (Text.Utf8.ofByte b) = false) ∧
        (reserved after' = reserved after ↔
          ∀ b ∈ escaped after, isReserved (Text.Utf8.ofByte b) = false)) := by
  have hfilled := sheetLinks_of_run hrun hrel
  rw [fillLink, if_pos hlink, htarget] at hfilled
  dsimp only at hfilled
  rw [fillTarget_around hspelling hbefore hafter] at hfilled
  -- A target whose text stays is not written anew.
  by_cases hsame : spliceText values token = token.text
  · rw [if_pos hsame] at hfilled
    exact ⟨before, spelling, after, hfilled, rfl, hsame ▸ decodeText_spelled hspelling, rfl,
      fun _ => ⟨rfl, rfl, rfl⟩, fun hne => absurd hsame hne⟩
  · rw [if_neg hsame] at hfilled
    refine ⟨_, _, _, hfilled, Text.Percent.decodeText_encode _, Text.Percent.decodeText_encode _,
      Text.Percent.decodeText_encode _, fun heq => absurd heq hsame, fun _ => ⟨rfl, ?_, ?_⟩⟩
    · rw [Text.Percent.reserved_encode, Text.Percent.reserved_decodeText_eq_iff]
    · rw [Text.Percent.reserved_encode, Text.Percent.reserved_decodeText_eq_iff]

/-- A link to another site. -/
def siteLink (target : String) : Element :=
  { name := "Relationship",
    attributes := [("Id", "site"), ("Type", Relationships.officeTypes ++ "/hyperlink"),
      ("Target", target), ("TargetMode", "External")] }

/-- A pass over a sheet without rows that has one link. -/
def linkedPass (target : String) : Pass where
  sheet := {
    name := "Plan"
    path := "xl/sheets/plan.xml"
    doc := { root := { name := "worksheet" } }
    rels := some {
      path := "xl/sheets/_rels/plan.xml.rels"
      doc := { root := .ofChildren "Relationships" [] [siteLink target] } } }
  tables := []
  drawing := none
  strings := {}
  workbook := default
  package := {}
  types := default

/-- The placeholder of the samples. -/
def idToken : Placeholder where
  kind := .normal
  name := "id"
  key := none
  subtype := none
  text := String.ofList (written "id".toList)
  full := false

/-- The spelling of the sample, with braces raw or escaped. -/
private theorem idToken_spelled {opening closing : List Char}
    (hopening : Text.Percent.Spells '{' opening) (hclosing : Text.Percent.Spells '}' closing) :
    idToken.Spelled ('$' :: (opening ++ ("id".toList ++ closing))) := by
  have hdecoded : decodeText "id".toList = "id".toList := by decide +kernel
  exact .mk .raw hopening hclosing (hdecoded ▸ ⟨by decide, by decide, by decide⟩)
    (hdecoded ▸ by decide +kernel)

/-- A blank and the braces are escaped, but no reserved character. -/
theorem link_filled_in_place_sample :
    ∃ q : Pass,
      (linkedPass "http://x/?q=%20$%7Bid%7D&r=a").run {} (fun _ => none) [("id", .text "a b")] =
        .ok q ∧
      (linkedPass "http://x/?q=%20$%7Bid%7D&r=a").sheetLinks[0]? =
        some (siteLink "http://x/?q=%20$%7Bid%7D&r=a") ∧
      idToken.Spelled "$%7Bid%7D".toList ∧ '{' ∉ decodeText "http://x/?q=%20".toList ∧
      '{' ∉ decodeText "&r=a".toList ∧
      ∃ before' filled after',
        q.sheetLinks[0]? = some ((siteLink "http://x/?q=%20$%7Bid%7D&r=a").setAttr "Target"
          (String.ofList (before' ++ filled ++ after'))) ∧
        decodeText before' = "http://x/?q= ".toList ∧ filled = "a%20b".toList ∧
        decodeText after' = "&r=a".toList ∧
        reserved before' = ":///?=".toList ∧ reserved after' = "&=".toList := by
  obtain ⟨q, hrun⟩ : ∃ q, (linkedPass "http://x/?q=%20$%7Bid%7D&r=a").run {} (fun _ => none)
      [("id", .text "a b")] = .ok q := ⟨_, rfl⟩
  have hlinks : (linkedPass "http://x/?q=%20$%7Bid%7D&r=a").sheetLinks[0]? =
      some (siteLink "http://x/?q=%20$%7Bid%7D&r=a") := rfl
  have hspelling : idToken.Spelled "$%7Bid%7D".toList :=
    idToken_spelled (.escape (show _ = some 0x7B by decide) (by decide))
      (.escape (show _ = some 0x7D by decide) (by decide))
  have hbefore : '{' ∉ decodeText "http://x/?q=%20".toList := by decide +kernel
  have hafter : '{' ∉ decodeText "&r=a".toList := by decide +kernel
  -- The value has a space, which is escaped.
  obtain ⟨before', filled, after', hfilled, hdecoded, -, hdecoded', -, hchanged⟩ :=
    link_filled_in_place hrun hlinks (by decide +kernel) (by decide +kernel) hspelling hbefore
      hafter
  obtain ⟨hvalue, hreserved, hreserved'⟩ := hchanged (by decide +kernel)
  exact ⟨q, hrun, hlinks, hspelling, hbefore, hafter, before', filled, after', hfilled,
    hdecoded.trans (by decide +kernel), hvalue.trans (by decide +kernel),
    hdecoded'.trans (by decide +kernel),
    (hreserved.2 (by decide +kernel)).trans (by decide +kernel),
    (hreserved'.2 (by decide +kernel)).trans (by decide +kernel)⟩

/-- An escaped sign of a query becomes one that divides it. -/
theorem escaped_sign_divides :
    ¬∀ (options : FillOptions) (files : ImageFiles) (values : Substitutions) (p q : Pass) (i : Nat)
        (rel : Element) (token : Placeholder) (before spelling after : List Char),
      p.run options files values = .ok q → p.sheetLinks[i]? = some rel →
      Relationships.hasType "hyperlink" rel = true →
      rel.attr? "Target" = some (String.ofList (before ++ spelling ++ after)) →
      token.Spelled spelling →
      '$' ∉ decodeText before ++ decodeText after →
      '{' ∉ decodeText before ++ decodeText after →
      '}' ∉ decodeText before ++ decodeText after →
      ∃ before' filled after',
        q.sheetLinks[i]? =
          some (rel.setAttr "Target" (String.ofList (before' ++ filled ++ after'))) ∧
        decodeText before' = decodeText before ∧
        decodeText filled = (spliceText values token).toList ∧
        decodeText after' = decodeText after ∧
        reserved before' = reserved before ∧ reserved after' = reserved after := by
  intro hall
  obtain ⟨q, hrun⟩ : ∃ q, (linkedPass "http://x/?q=a%26b&id=$\x7bid\x7d").run {} (fun _ => none)
      [("id", .text "7")] = .ok q := ⟨_, rfl⟩
  have hlinks : (linkedPass "http://x/?q=a%26b&id=$\x7bid\x7d").sheetLinks[0]? =
      some (siteLink "http://x/?q=a%26b&id=$\x7bid\x7d") := rfl
  obtain ⟨before', filled, after', hfilled, -, hvalue, -, hbefore, hafter⟩ :=
    hall {} (fun _ => none) _ _ q 0 _ idToken "http://x/?q=a%26b&id=".toList _ [] hrun hlinks
      (by decide +kernel) (by decide +kernel) (idToken_spelled .raw .raw) (by decide +kernel)
      (by decide +kernel) (by decide +kernel)
  -- The target after the pass is evaluated.
  have hlink := Option.some_inj.1 ((sheetLinks_of_run hrun hlinks).symm.trans hfilled)
  have htarget := congrArg (Element.attr? · "Target") hlink
  rw [Element.attr?_setAttr_self] at htarget
  have hnew : (fillLink [("id", .text "7")] (siteLink "http://x/?q=a%26b&id=$\x7bid\x7d")).attr?
      "Target" = some "http://x/?q=a&b&id=7" := by decide +kernel
  have hparts := congrArg String.toList (Option.some_inj.1 (htarget.symm.trans hnew))
  -- The new target has a ninth reserved character, and the value has none.
  have hcount := congrArg (fun s => (reserved s).length) hparts
  have hnone := (Text.Percent.sublist_reserved_decodeText filled).length_le
  rw [hvalue] at hnone
  simp only [String.toList_ofList, Text.Percent.reserved_append, List.length_append, hbefore,
    hafter] at hcount
  have hleft : (reserved "http://x/?q=a%26b&id=".toList).length = 8 := by decide
  have hwhole : (reserved "http://x/?q=a&b&id=7".toList).length = 9 := by decide
  have hplain : (reserved (spliceText [("id", .text "7")] idToken).toList).length = 0 := by
    decide +kernel
  have hempty : (reserved []).length = 0 := rfl
  omega

end Fill

end SheetTemplate
