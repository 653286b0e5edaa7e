import Mathlib.Data.List.Basic
import SheetTemplate.Proofs.Utf8RoundTrip
import SheetTemplate.Xml.Reader
import SheetTemplate.Xml.Writer

/-!
# The tokens of written markup

What the writer puts out is cut back into the tokens it was made of. A name of XML contains nothing
that a tag could end at, a reserved character of a text is written as an entity, and a section or a
comment ends at the first mark that can end it.

## Key results

- `unescape?_escape`: a text is read back from its written form
- `next?_length_lt`: every token takes at least one glyph
- `next?_opening`, `next?_lone`, `next?_closing`, `next?_text`, `next?_cdata`, `next?_comment`: the
  tokens, one lemma each
- `element?_tagGlyphs`: a tag is read back with its attributes
-/

namespace SheetTemplate.Xml

open Text (Glyph)

/-! ### Names -/

/-- Whether a name of XML may begin with a character: `NameStartChar` of XML 1.0. -/
def isNameStart (c : Char) : Bool :=
  let n := c.toNat
  c == ':' || c == '_' || ('A' ≤ c && c ≤ 'Z') || ('a' ≤ c && c ≤ 'z') ||
    (0xC0 ≤ n && n ≤ 0xD6) || (0xD8 ≤ n && n ≤ 0xF6) || (0xF8 ≤ n && n ≤ 0x2FF) ||
    (0x370 ≤ n && n ≤ 0x37D) || (0x37F ≤ n && n ≤ 0x1FFF) || (0x200C ≤ n && n ≤ 0x200D) ||
    (0x2070 ≤ n && n ≤ 0x218F) || (0x2C00 ≤ n && n ≤ 0x2FEF) || (0x3001 ≤ n && n ≤ 0xD7FF) ||
    (0xF900 ≤ n && n ≤ 0xFDCF) || (0xFDF0 ≤ n && n ≤ 0xFFFD) || (0x10000 ≤ n && n ≤ 0xEFFFF)

/-- Whether a character may stand in a name of XML: `NameChar` of XML 1.0. -/
def isNameChar (c : Char) : Bool :=
  let n := c.toNat
  isNameStart c || c == '-' || c == '.' || ('0' ≤ c && c ≤ '9') || n == 0xB7 ||
    (0x300 ≤ n && n ≤ 0x36F) || (0x203F ≤ n && n ≤ 0x2040)

/-- A name of XML. -/
def IsName (s : String) : Prop :=
  ∃ c r, s.toList = c :: r ∧ isNameStart c = true ∧ ∀ x ∈ r, isNameChar x = true

instance (s : String) : Decidable (IsName s) :=
  decidable_of_iff ((s.toList.head?.any isNameStart && s.toList.tail.all isNameChar) = true) <| by
    unfold IsName
    cases s.toList with
    | nil => simp
    | cons c r => simp

/-- The characters that end a name, and those that tell tokens apart after a bracket. -/
def markupChars : List Char :=
  ['<', '>', '/', '!', '?', '=', '"', '\x27', ' ', '\r', '\n', '\t', '\x0c']

/-- No character of a name ends a tag, an attribute or a value. -/
theorem not_mem_markupChars {c : Char} (h : isNameChar c = true) : c ∉ markupChars := by
  have hall : (markupChars.all fun m => !isNameChar m) = true := by decide
  intro hmem
  simpa [h] using List.all_eq_true.1 hall c hmem

/-- A character that may begin a name may stand in it. -/
theorem isNameChar_of_isNameStart {c : Char} (h : isNameStart c = true) : isNameChar c = true := by
  simp [isNameChar, h]

namespace IsName

variable {s : String} (h : IsName s)

include h

/-- A name is not empty. -/
theorem ne_nil : s.toList ≠ [] := by
  obtain ⟨c, r, hs, -, -⟩ := h
  simp [hs]

/-- A name has none of the characters that end it. -/
theorem not_mem {m : Char} (hm : m ∈ markupChars) : m ∉ s.toList := by
  obtain ⟨c, r, hs, hc, hr⟩ := h
  rw [hs]
  intro hmem
  rcases List.mem_cons.1 hmem with rfl | hmem
  · exact not_mem_markupChars (isNameChar_of_isNameStart hc) hm
  · exact not_mem_markupChars (hr m hmem) hm

end IsName

/-! ### Entities -/

namespace Entity

/-- The written form of a character is read as the character. -/
private theorem unescapeOnto?_escapeChar (done : List Char) (c : Char) (r : List Char) :
    unescapeOnto? done none (escapeChar c ++ r) = unescapeOnto? (c :: done) none r := by
  -- Five characters are written as entities and read back as them; any other stands for itself.
  unfold escapeChar
  split
  · subst c; rfl
  split
  · subst c; rfl
  split
  · subst c; rfl
  split
  · subst c; rfl
  split
  · subst c; rfl
  · rename_i hamp _ _
    rw [List.singleton_append, unescapeOnto?, if_neg hamp]

/-- A text is read back from its written form. -/
@[simp]
theorem unescape?_escape (cs : List Char) : unescape? (escape cs) = some cs := by
  have honto : ∀ done, unescapeOnto? done none (escape cs) = some (done.reverse ++ cs) := by
    induction cs with
    | nil => intro done; simp [escape, unescapeOnto?]
    | cons c cs ih =>
      intro done
      rw [escape, List.flatMap_cons, unescapeOnto?_escapeChar]
      rw [escape] at ih
      rw [ih, List.reverse_cons, List.append_assoc, List.singleton_append]
  exact honto []

/-- A text is escaped character by character. -/
theorem escape_append (cs ds : List Char) : escape (cs ++ ds) = escape cs ++ escape ds :=
  List.flatMap_append

/-- A character that is written as an entity does not come up in a written text. -/
theorem not_mem_escape {m : Char} (hm : m ∈ ['<', '>', '"', '\x27']) (cs : List Char) :
    m ∉ escape cs := by
  intro hmem
  obtain ⟨c, -, hmem⟩ := List.mem_flatMap.1 hmem
  have hentities : ∀ x ∈ ['<', '>', '"', '\x27'],
      ∀ e ∈ ["&lt;", "&gt;", "&amp;", "&apos;", "&quot;"], x ∉ e.toList := by simp
  -- The entities hold none of these marks, and a character that is not escaped is none.
  unfold escapeChar at hmem
  split at hmem
  · exact hentities m hm "&lt;" (by simp) hmem
  split at hmem
  · exact hentities m hm "&gt;" (by simp) hmem
  split at hmem
  · exact hentities m hm "&amp;" (by simp) hmem
  split at hmem
  · exact hentities m hm "&apos;" (by simp) hmem
  split at hmem
  · exact hentities m hm "&quot;" (by simp) hmem
  · rw [List.mem_singleton] at hmem
    subst hmem
    simp_all

/-- Only the empty text is written as nothing. -/
theorem escape_eq_nil {cs : List Char} : escape cs = [] ↔ cs = [] := by
  constructor
  · intro hnil
    have := unescape?_escape cs
    rw [hnil] at this
    exact (Option.some_inj.1 this).symm
  · rintro rfl
    rfl

end Entity

/-! ### Every token takes a glyph -/

namespace Token

/-- A declaration takes no glyph twice. -/
private theorem length_upToBracket (s : List Glyph) : (upToBracket s).2.length ≤ s.length := by
  unfold upToBracket
  rw [List.length_drop]
  exact Nat.le_trans (Nat.sub_le _ _) (List.dropWhile_sublist _).length_le

/-- Neither does a tag. -/
private theorem length_tagEnd (done : List Glyph) (quote : Option Glyph) (s : List Glyph) :
    (tagEnd done quote s).2.length ≤ s.length := by
  fun_induction tagEnd done quote s <;> simp_all <;> omega

/-- A section or a comment takes at least its last bracket. -/
private theorem length_markedEnd? {mark : Glyph} {least : Nat} {done s content rest : List Glyph}
    (h : markedEnd? mark least done s = some (content, rest)) : rest.length < s.length := by
  induction s generalizing done with
  | nil => cases h
  | cons g r ih =>
    rw [markedEnd?] at h
    split at h
    · cases h
      exact Nat.lt_succ_self _
    · exact Nat.lt_succ_of_lt (ih h)

/-- A document type takes at least its last bracket. -/
private theorem length_balancedEnd? {depth : Nat} {done s content rest : List Glyph}
    (h : balancedEnd? done depth s = some (content, rest)) : rest.length < s.length := by
  fun_induction balancedEnd? done depth s <;> simp_all <;> omega

/-- So every token that begins with a mark takes something. -/
private theorem length_marked? {s rest : List Glyph} {token : Token}
    (h : marked? s = some (token, rest)) : rest.length < s.length := by
  unfold marked? at h
  -- A section, a comment or a document type: each is cut at its end first and looked at then.
  split at h
  · obtain ⟨⟨content, rest'⟩, hend, h⟩ := Option.bind_eq_some_iff.1 h
    obtain ⟨body, -, h⟩ := Option.bind_eq_some_iff.1 h
    cases h
    exact length_markedEnd? hend
  · obtain ⟨⟨content, rest'⟩, hend, h⟩ := Option.bind_eq_some_iff.1 h
    obtain ⟨body, -, h⟩ := Option.bind_eq_some_iff.1 h
    cases h
    exact length_markedEnd? hend
  · dsimp only at h
    split at h
    · cases h
    obtain ⟨⟨content, rest'⟩, hend, h⟩ := Option.bind_eq_some_iff.1 h
    obtain ⟨body, -, h⟩ := Option.bind_eq_some_iff.1 h
    dsimp only at h
    split at h
    · cases h
    cases h
    exact length_balancedEnd? hend
  · cases h

/-- An instruction takes no glyph twice. -/
private theorem length_instruction? {s rest : List Glyph} {token : Token}
    (h : instruction? s = some (token, rest)) : rest.length ≤ s.length := by
  have hle := length_upToBracket s
  unfold instruction? at h
  dsimp only at h
  split at h
  · split at h <;> cases h <;> exact hle
  · cases h

/-- Tags of all three kinds end within the glyphs. -/
private theorem length_tag (s : List Glyph) : (tag s).2.length ≤ s.length := by
  have hle := length_tagEnd [] none s
  unfold tag
  dsimp only
  split <;> exact hle

/-- Every token takes at least one glyph. -/
theorem next?_length_lt {s rest : List Glyph} {token : Token}
    (h : next? s = some (some (token, rest))) : rest.length < s.length := by
  unfold next? at h
  -- What the next glyphs are decides the kind of the token; the bracket before them counts as one
  -- glyph in all cases but a text.
  split at h
  · cases h
  · cases h
  · obtain ⟨⟨token', rest'⟩, hmarked, h⟩ := Option.map_eq_some_iff.1 h
    cases h
    have := length_marked? hmarked
    simp only [List.length_cons]
    omega
  · obtain ⟨⟨token', rest'⟩, hinstruction, h⟩ := Option.map_eq_some_iff.1 h
    cases h
    have := length_instruction? hinstruction
    simp only [List.length_cons]
    omega
  · rename_i r
    cases h
    have := length_upToBracket r
    simp only [List.length_cons]
    omega
  · rename_i r _ _ _ _
    have := length_tag r
    rw [Option.some_inj.1 (Option.some_inj.1 h)] at this
    exact Nat.lt_succ_of_le this
  · rename_i hnil _ _ _ _ hbracket
    cases h
    cases s with
    | nil => exact absurd rfl hnil
    | cons g r =>
      -- A text does not begin with a bracket.
      have hg : (g != .char '<') = true := by
        rw [bne_iff_ne]
        rintro rfl
        exact hbracket r rfl
      rw [List.dropWhile_cons, if_pos hg]
      exact Nat.lt_succ_of_le (List.dropWhile_sublist _).length_le

end Token

/-! ### Tags -/

/-- The attributes of a tag as they are written. -/
def attributeChars (attributes : List (String × String)) : List Char :=
  attributes.flatMap fun a =>
    ' ' :: (a.1.toList ++ '=' :: '"' :: (Entity.escape a.2.toList ++ ['"']))

/-- What is written between the brackets of a tag. -/
def tagChars (name : String) (attributes : List (String × String)) : List Char :=
  name.toList ++ attributeChars attributes

/-- A tag with names of XML, none of which names two attributes. -/
structure NamedTag (name : String) (attributes : List (String × String)) : Prop where
  name : IsName name
  keys : ∀ a ∈ attributes, IsName a.1
  distinct : (attributes.map Prod.fst).Nodup

instance (name : String) (attributes : List (String × String)) :
    Decidable (NamedTag name attributes) :=
  decidable_of_iff
    (IsName name ∧ (∀ a ∈ attributes, IsName a.1) ∧ (attributes.map Prod.fst).Nodup)
    ⟨fun h => ⟨h.1, h.2.1, h.2.2⟩, fun h => ⟨h.1, h.2, h.3⟩⟩

namespace Token

/-- Glyphs that a tag does not end in. -/
private def Passed (s : List Glyph) : Prop :=
  ∀ done r, tagEnd done none (s ++ r) = tagEnd (s.reverse ++ done) none r

/-- Glyphs passed over in two goes are passed over. -/
private theorem Passed.append {s s' : List Glyph} (h : Passed s) (h' : Passed s') :
    Passed (s ++ s') := by
  intro done r
  rw [List.append_assoc, h, h', List.reverse_append, List.append_assoc]

/-- Glyphs that neither end a tag nor open a value are passed over. -/
private theorem passed_of_not_mem {cs : List Char}
    (h : ∀ m ∈ ['>', '"', '\x27'], m ∉ cs) : Passed (cs.map .char) := by
  intro done r
  -- Along the glyphs: each is none of the three that the search for the end of a tag looks at.
  induction cs generalizing done with
  | nil => rfl
  | cons c cs ih =>
    have hc : ∀ m ∈ ['>', '"', '\x27'], c ≠ m := fun m hm heq =>
      h m hm (heq ▸ List.mem_cons_self)
    have hne : ∀ m ∈ ['>', '"', '\x27'], Glyph.char c ≠ .char m := fun m hm heq =>
      hc m hm (Glyph.char.inj heq)
    rw [List.map_cons, List.cons_append, tagEnd, if_neg (hne _ (by simp)),
      if_neg (not_or.2 ⟨hne _ (by simp), hne _ (by simp)⟩),
      ih (fun m hm hmem => h m hm (List.mem_cons_of_mem _ hmem)), List.reverse_cons,
      List.append_assoc, List.singleton_append]

/-- A value in quotes is passed as a whole. -/
private theorem passed_quoted {cs : List Char} (h : '"' ∉ cs) :
    Passed (.char '"' :: (cs.map .char ++ [.char '"'])) := by
  -- Inside the quotation only the closing quote is looked for.
  have hinside : ∀ done r, tagEnd done (some (.char '"')) (cs.map .char ++ .char '"' :: r) =
      tagEnd (.char '"' :: ((cs.map .char).reverse ++ done)) none r := by
    intro done r
    induction cs generalizing done with
    | nil => rw [List.map_nil, List.nil_append, tagEnd, if_pos rfl]; rfl
    | cons c cs ih =>
      have hc : Glyph.char c ≠ .char '"' := fun heq =>
        h (Glyph.char.inj heq ▸ List.mem_cons_self)
      rw [List.map_cons, List.cons_append, tagEnd, if_neg hc,
        ih (fun hmem => h (List.mem_cons_of_mem _ hmem)), List.reverse_cons, List.append_assoc,
        List.singleton_append]
  intro done r
  rw [List.cons_append, tagEnd, if_neg (by decide), if_pos (.inl rfl), List.append_assoc,
    List.singleton_append, hinside]
  simp

/-- A name is passed over. -/
private theorem passed_name {s : String} (h : IsName s) : Passed (s.toList.map .char) := by
  apply passed_of_not_mem
  intro m hm
  apply h.not_mem
  revert m
  simp [markupChars]

/-- So are written attributes: what could end a tag stands in quotes or is escaped. -/
private theorem passed_attributes {attributes : List (String × String)}
    (h : ∀ a ∈ attributes, IsName a.1) : Passed ((attributeChars attributes).map .char) := by
  unfold attributeChars
  induction attributes with
  | nil => exact fun done r => rfl
  | cons a rest ih =>
    have hspace : Passed ([' '].map .char) := passed_of_not_mem (by simp)
    have hequal : Passed (['='].map .char) := passed_of_not_mem (by simp)
    have hvalue := passed_quoted (Entity.not_mem_escape (m := '"') (by simp) a.2.toList)
    have := (hspace.append ((passed_name (h a List.mem_cons_self)).append
      (hequal.append hvalue))).append (ih fun b hb => h b (List.mem_cons_of_mem _ hb))
    simpa using this

/-- The end of a written tag is not found before the end. -/
private theorem tagEnd_tagChars {name : String} {attributes : List (String × String)}
    (h : NamedTag name attributes) (r : List Glyph) :
    tagEnd [] none ((tagChars name attributes).map .char ++ r) =
      tagEnd ((tagChars name attributes).map .char).reverse none r := by
  have := (passed_name h.name).append (passed_attributes h.keys) [] r
  rwa [← List.map_append, List.append_nil] at this

/-- The last character of a tag is no slash. -/
private theorem tagChars_eq_concat {name : String} {attributes : List (String × String)}
    (h : NamedTag name attributes) :
    ∃ start c, tagChars name attributes = start ++ [c] ∧ c ≠ '/' := by
  unfold tagChars
  rcases List.eq_nil_or_concat attributes with rfl | ⟨rest, a, rfl⟩
  · -- Without attributes it is the last of the name.
    rw [attributeChars, List.flatMap_nil, List.append_nil]
    refine ⟨_, _, (List.dropLast_append_getLast h.name.ne_nil).symm, fun hslash => ?_⟩
    have hmem := List.getLast_mem h.name.ne_nil
    rw [hslash] at hmem
    exact h.name.not_mem (by decide) hmem
  · -- Otherwise it is the quote after the last value.
    refine ⟨name.toList ++ attributeChars rest ++
      ' ' :: (a.1.toList ++ '=' :: '"' :: Entity.escape a.2.toList), '"', ?_, by decide⟩
    simp [attributeChars]

/-- An opening tag. -/
theorem tag_opening {name : String} {attributes : List (String × String)}
    (h : NamedTag name attributes) (r : List Glyph) :
    tag ((tagChars name attributes).map .char ++ .char '>' :: r) =
      (.opening ((tagChars name attributes).map .char), r) := by
  obtain ⟨start, c, heq, hc⟩ := tagChars_eq_concat h
  unfold tag
  rw [tagEnd_tagChars h, tagEnd, if_pos rfl, List.reverse_reverse, heq]
  simp only [List.map_append, List.map_cons, List.map_nil, List.reverse_append, List.reverse_cons,
    List.reverse_nil, List.nil_append, List.singleton_append]
  split
  · rename_i hslash
    cases hslash
    exact absurd rfl hc
  · rfl

/-- A tag without content. -/
theorem tag_lone {name : String} {attributes : List (String × String)}
    (h : NamedTag name attributes) (r : List Glyph) :
    tag ((tagChars name attributes).map .char ++ .char '/' :: .char '>' :: r) =
      (.lone ((tagChars name attributes).map .char), r) := by
  unfold tag
  rw [tagEnd_tagChars h, tagEnd, if_neg (by decide), if_neg (by decide), tagEnd, if_pos rfl,
    List.reverse_cons, List.reverse_reverse]
  simp

/-! ### Attributes -/

/-- Up to the mark and from the mark on. -/
private theorem takeWhile_append {p : Glyph → Bool} {l : List Glyph} {m : Glyph} {r : List Glyph}
    (h : ∀ g ∈ l, p g = true) (hm : p m = false) :
    (l ++ m :: r).takeWhile p = l ∧ (l ++ m :: r).dropWhile p = m :: r := by
  rw [List.takeWhile_append_of_pos h, List.dropWhile_append_of_pos h]
  simp [hm]

/-- No glyph of a name is blank. -/
private theorem isBlank_of_mem {s : String} (h : IsName s) {g : Glyph}
    (hg : g ∈ s.toList.map Glyph.char) : isBlank g = false := by
  obtain ⟨c, hc, rfl⟩ := List.mem_map.1 hg
  have hne : ∀ m ∈ markupChars, c ≠ m := fun m hm heq => h.not_mem hm (heq ▸ hc)
  simp [isBlank, hne ' ' (by decide), hne '\r' (by decide), hne '\n' (by decide),
    hne '\t' (by decide)]

/-- No glyph of a name is a mark. -/
private theorem ne_of_mem {s : String} (h : IsName s) {g : Glyph} {m : Char} (hm : m ∈ markupChars)
    (hg : g ∈ s.toList.map Glyph.char) : (g != .char m) = true := by
  obtain ⟨c, hc, rfl⟩ := List.mem_map.1 hg
  rw [bne_iff_ne]
  intro heq
  exact h.not_mem hm (Glyph.char.inj heq ▸ hc)

/-- An attribute and what follows it. -/
private theorem attribute?_written {key : String} (hkey : IsName key) (value : List Char)
    (r : List Glyph) :
    attribute? ((' ' :: (key.toList ++ '=' :: '"' :: (Entity.escape value ++ ['"']))).map .char ++
      r) = some (some ((key.toList.map .char, (Entity.escape value).map .char), r)) := by
  -- The key begins after one blank and goes up to the equals sign, the value stands between quotes.
  obtain ⟨c, cs, hcs⟩ := List.exists_cons_of_ne_nil hkey.ne_nil
  have hblank : ∀ g ∈ key.toList.map Glyph.char, isBlank g = false := fun g => isBlank_of_mem hkey
  have hplain : ∀ g ∈ key.toList.map Glyph.char, (g != .char '=' && !isBlank g) = true := by
    intro g hg
    rw [hblank g hg, ne_of_mem hkey (by decide) hg]
    rfl
  have hclose : '"' ∉ Entity.escape value := Entity.not_mem_escape (by simp) value
  have hquote : ∀ g ∈ (Entity.escape value).map Glyph.char, (g != .char '"') = true := by
    intro g hg
    obtain ⟨x, hx, rfl⟩ := List.mem_map.1 hg
    rw [bne_iff_ne]
    intro heq
    exact hclose (Glyph.char.inj heq ▸ hx)
  have hquoted : quoted? (.char '"' :: ((Entity.escape value).map .char ++ .char '"' :: r)) =
      some ((Entity.escape value).map .char, r) := by
    unfold quoted?
    rw [List.dropWhile_cons, if_neg (by decide)]
    dsimp only
    rw [if_pos ⟨.inl rfl, by simp⟩, (takeWhile_append hquote (by decide)).1,
      (takeWhile_append hquote (by decide)).2, List.drop_one, List.tail_cons]
  rw [hcs] at hblank hplain ⊢
  rw [List.map_cons] at hblank hplain
  have hrest : ∀ g ∈ cs.map Glyph.char, (g != .char '=' && !isBlank g) = true :=
    fun g hg => hplain g (List.mem_cons_of_mem _ hg)
  unfold attribute?
  simp only [List.map_cons, List.map_append, List.cons_append, List.append_assoc, List.map_nil,
    List.nil_append]
  rw [List.dropWhile_cons, if_pos (by decide), List.dropWhile_cons,
    if_neg (by rw [hblank _ List.mem_cons_self]; decide)]
  dsimp only
  rw [(takeWhile_append hrest (by decide)).1, (takeWhile_append hrest (by decide)).2,
    List.dropWhile_cons, if_neg (by decide)]
  show Option.map _ (quoted? _) = _
  rw [hquoted]
  rfl

/-- An attribute as it is read: key and value as written. -/
private def writtenPair (a : String × String) : List Glyph × List Glyph :=
  (a.1.toList.map .char, (Entity.escape a.2.toList).map .char)

/-- Characters are told apart by their glyphs. -/
private theorem map_char_injective {cs ds : List Char}
    (h : cs.map Glyph.char = ds.map Glyph.char) : cs = ds := by
  have := congrArg Text.Utf8.lossy h
  rwa [Text.Utf8.lossy_map_char, Text.Utf8.lossy_map_char] at this

/-- Written attributes are read one after the other, all of them and nothing else. -/
private theorem attributes?_written {attributes : List (String × String)}
    (hkeys : ∀ a ∈ attributes, IsName a.1) (hdistinct : (attributes.map Prod.fst).Nodup)
    {done : List (List Glyph × List Glyph)}
    (hdone : ∀ a ∈ attributes, ∀ d ∈ done, d.1 ≠ a.1.toList.map .char) {steps : Nat}
    (hsteps : attributes.length ≤ steps) :
    attributes? done steps ((attributeChars attributes).map .char) =
      some (done.reverse ++ attributes.map writtenPair) := by
  -- Along the attributes; the keys done so far are carried to rule out that one comes twice.
  induction attributes generalizing done steps with
  | nil =>
    cases steps with
    | zero => simp [attributeChars, attributes?]
    | succ steps => simp [attributeChars, attributes?, attribute?]
  | cons a rest ih =>
    cases steps with
    | zero => simp at hsteps
    | succ steps =>
      obtain ⟨hnew, hdistinct⟩ := List.nodup_cons.1 hdistinct
      have hread := attribute?_written (hkeys a List.mem_cons_self) a.2.toList
        ((attributeChars rest).map .char)
      rw [attributeChars, List.flatMap_cons, List.map_append, attributes?]
      rw [attributeChars] at hread
      rw [hread]
      dsimp only
      rw [if_neg, ← attributeChars, ih (fun b hb => hkeys b (List.mem_cons_of_mem _ hb)) hdistinct
        ?_ (Nat.le_of_succ_le_succ hsteps)]
      · simp [writtenPair]
      · intro b hb d hd
        rcases List.mem_cons.1 hd with rfl | hd
        · intro heq
          -- Two attributes never have one key.
          have hsame : a.1 = b.1 := String.toList_inj.1 (map_char_injective heq)
          exact hnew (hsame ▸ List.mem_map_of_mem hb)
        · exact hdone b (List.mem_cons_of_mem _ hb) d hd
      · simp only [List.any_eq_true, beq_iff_eq, not_exists, not_and]
        exact hdone a List.mem_cons_self

/-- There are enough steps for all attributes, as each takes a blank at least. -/
private theorem length_le_attributeChars (attributes : List (String × String)) :
    attributes.length ≤ (attributeChars attributes).length := by
  unfold attributeChars
  induction attributes with
  | nil => exact Nat.le_refl _
  | cons a rest ih =>
    rw [List.flatMap_cons, List.length_append, List.length_cons, List.length_cons]
    omega

/-- A written tag is its name and its attributes. -/
private theorem map_tagChars (name : String) (attributes : List (String × String)) :
    (tagChars name attributes).map Glyph.char =
      name.toList.map .char ++ (attributeChars attributes).map .char := List.map_append

/-- The name of a tag. -/
theorem tagName_tagChars {name : String} (h : IsName name) (attributes : List (String × String)) :
    tagName ((tagChars name attributes).map .char) = name.toList.map .char := by
  have hblank : ∀ g ∈ name.toList.map Glyph.char, (!isBlank g) = true := by
    intro g hg
    rw [isBlank_of_mem h hg]
    rfl
  unfold tagName
  rw [map_tagChars]
  -- With attributes the name ends at the first blank, without any it ends with the tag.
  cases attributes with
  | nil =>
    rw [attributeChars, List.flatMap_nil, List.map_nil, List.append_nil]
    have := @List.takeWhile_append_of_pos _ (fun g => !isBlank g) _ [] hblank
    simpa using this
  | cons a rest => exact (takeWhile_append hblank (by decide)).1

/-- A tag is read back with its attributes. -/
theorem element?_tagChars {name : String} {attributes : List (String × String)}
    (h : NamedTag name attributes) :
    element? ((tagChars name attributes).map .char) = some { name, attributes } := by
  have hsteps : attributes.length ≤ ((tagChars name attributes).map Glyph.char).length := by
    rw [map_tagChars, List.length_append]
    refine Nat.le_trans ?_ (Nat.le_add_left _ _)
    rw [List.length_map]
    exact length_le_attributeChars attributes
  -- The values are put back from their entities one by one.
  have hvalues : (attributes.map writtenPair).mapM
      (fun pair => (unescaped? pair.2).map (verbatim pair.1, ·)) = some attributes := by
    clear hsteps h
    induction attributes with
    | nil => rfl
    | cons a rest ih =>
      rw [List.map_cons, List.mapM_cons, ih]
      simp [writtenPair, unescaped?, verbatim]
  unfold element?
  rw [tagName_tagChars h.name]
  dsimp only
  rw [map_tagChars, List.drop_left, ← map_tagChars,
    attributes?_written h.keys h.distinct (by simp) hsteps]
  simp only [List.reverse_nil, List.nil_append]
  show Option.bind (List.mapM _ (attributes.map writtenPair)) _ = _
  rw [hvalues]
  simp [verbatim]

/-! ### Tokens -/

/-- A bracket and a character without a meaning begin a tag. -/
private theorem next?_tag {c : Char} (hc : c ∉ ['!', '?', '/']) (r : List Glyph) :
    next? (.char '<' :: .char c :: r) = some (some (tag (.char c :: r))) := by
  unfold next?
  split
  · rename_i h; cases h
  · rename_i h; cases h
  · rename_i h; cases h; simp at hc
  · rename_i h; cases h; simp at hc
  · rename_i h; cases h; simp at hc
  · rename_i h; cases h; rfl
  · rename_i h; exact absurd rfl (h _)

/-- A written tag is read as a tag, for a name begins it. -/
private theorem next?_tagChars {name : String} (attributes : List (String × String))
    (h : IsName name) (r : List Glyph) :
    next? (.char '<' :: ((tagChars name attributes).map .char ++ r)) =
      some (some (tag ((tagChars name attributes).map .char ++ r))) := by
  obtain ⟨c, cs, hcs⟩ := List.exists_cons_of_ne_nil h.ne_nil
  have hc : c ∉ ['!', '?', '/'] := by
    intro hmem
    have hmarkup : ∀ m ∈ ['!', '?', '/'], m ∈ markupChars := by simp [markupChars]
    exact h.not_mem (hmarkup c hmem) (hcs ▸ List.mem_cons_self)
  rw [tagChars, hcs]
  exact next?_tag hc _

/-- An opening tag is read up to its bracket. -/
theorem next?_opening {name : String} {attributes : List (String × String)}
    (h : NamedTag name attributes) (r : List Glyph) :
    next? (.char '<' :: ((tagChars name attributes).map .char ++ .char '>' :: r)) =
      some (some (.opening ((tagChars name attributes).map .char), r)) := by
  rw [next?_tagChars attributes h.name, tag_opening h]

/-- So is the tag of an element without content, its slash being no part of the attributes. -/
theorem next?_lone {name : String} {attributes : List (String × String)}
    (h : NamedTag name attributes) (r : List Glyph) :
    next? (.char '<' :: ((tagChars name attributes).map .char ++ .char '/' :: .char '>' :: r)) =
      some (some (.lone ((tagChars name attributes).map .char), r)) := by
  rw [next?_tagChars attributes h.name, tag_lone h]

/-- So is a closing tag. -/
theorem next?_closing {name : String} (h : IsName name) (r : List Glyph) :
    next? (.char '<' :: .char '/' :: (name.toList.map .char ++ .char '>' :: r)) =
      some (some (.closing (name.toList.map .char), r)) := by
  have hname : ∀ g ∈ name.toList.map Glyph.char, (g != .char '>') = true :=
    fun g => ne_of_mem h (by decide)
  show some (some (Token.closing (upToBracket _).1, (upToBracket _).2)) = _
  rw [upToBracket, (takeWhile_append hname (by decide)).1, (takeWhile_append hname (by decide)).2]
  rfl

/-- What begins with no bracket is text up to the next one. -/
private theorem next?_plain {g : Glyph} (hg : g ≠ .char '<') (r : List Glyph) :
    next? (g :: r) = some (some (.text ((g :: r).takeWhile (· != .char '<')),
      (g :: r).dropWhile (· != .char '<'))) := by
  unfold next?
  split
  · rename_i h; cases h
  · rename_i h; cases h; exact absurd rfl hg
  · rename_i h; cases h; exact absurd rfl hg
  · rename_i h; cases h; exact absurd rfl hg
  · rename_i h; cases h; exact absurd rfl hg
  · rename_i h; cases h; exact absurd rfl hg
  · rfl

/-- A text is read up to the next bracket. -/
theorem next?_text {cs : List Char} (hcs : cs ≠ []) (hbracket : '<' ∉ cs) (r : List Glyph) :
    next? (cs.map .char ++ .char '<' :: r) =
      some (some (.text (cs.map .char), .char '<' :: r)) := by
  have hplain : ∀ g ∈ cs.map Glyph.char, (g != .char '<') = true := by
    intro g hg
    obtain ⟨c, hc, rfl⟩ := List.mem_map.1 hg
    rw [bne_iff_ne]
    intro heq
    exact hbracket (Glyph.char.inj heq ▸ hc)
  obtain ⟨htake, hdrop⟩ := takeWhile_append (m := .char '<') (r := r) hplain (by decide)
  obtain ⟨c, cs, rfl⟩ := List.exists_cons_of_ne_nil hcs
  have hc : Glyph.char c ≠ .char '<' := fun heq =>
    hbracket (Glyph.char.inj heq ▸ List.mem_cons_self)
  rw [List.map_cons, List.cons_append] at htake hdrop ⊢
  rw [next?_plain hc, htake, hdrop]

/-- A section or a comment ends at the first mark that can end it. -/
private theorem markedEnd?_written {mark : Char} (hmark : mark ≠ '>') {least : Nat}
    {done : List Glyph} {cs : List Char}
    (hearly : ∀ before after, cs = before ++ '>' :: after →
      ¬(((before.map Glyph.char).reverse ++ done).take 2 = [.char mark, .char mark] ∧
        least ≤ before.length + done.length))
    (hleast : least ≤ cs.length + done.length + 2) (r : List Glyph) :
    markedEnd? (.char mark) least done
      (cs.map .char ++ .char mark :: .char mark :: .char '>' :: r) =
        some (done.reverse ++ cs.map .char ++ [.char mark, .char mark], r) := by
  -- Along the content: a bracket in it does not end it yet, by assumption, and what is done so far
  -- is carried along.
  induction cs generalizing done with
  | nil =>
    have hne : Glyph.char mark ≠ .char '>' := fun heq => hmark (Glyph.char.inj heq)
    rw [List.map_nil, List.nil_append, markedEnd?, if_neg (fun h => hne h.1), markedEnd?,
      if_neg (fun h => hne h.1), markedEnd?, if_pos]
    · simp
    · refine ⟨rfl, rfl, ?_⟩
      simpa using hleast
  | cons c cs ih =>
    rw [List.map_cons, List.cons_append, markedEnd?, if_neg, ih ?_ ?_]
    · simp
    · intro before after heq
      have := hearly (c :: before) after (by rw [heq]; rfl)
      simpa [Nat.add_assoc, Nat.add_comm, Nat.add_left_comm] using this
    · rw [List.length_cons] at hleast ⊢
      omega
    · rintro ⟨hc, htake, hlength⟩
      cases Glyph.char.inj hc
      exact hearly [] cs rfl ⟨htake, by simpa using hlength⟩

/-- A mark that begins behind an opening, or with a character that is not in it, stands in what
follows the opening. -/
private theorem isInfix_of_append {opening cs before after mark : List Char} {m : Char}
    (h : opening ++ cs = before ++ m :: mark ++ after)
    (hbehind : opening.length ≤ before.length ∨ m ∉ opening) : m :: mark <:+: cs := by
  rw [List.append_assoc] at h
  -- The mark begins in what comes before or in the content; the first is what the condition
  -- excludes.
  rcases List.append_eq_append_iff.1 h with ⟨start, rfl, hcs⟩ | ⟨start, hopening, hmark⟩
  · exact ⟨start, after, by rw [hcs, List.append_assoc]⟩
  · cases start with
    | nil => exact ⟨[], after, by simpa using hmark⟩
    | cons x start =>
      rw [List.cons_append, List.cons_append, List.cons.injEq] at hmark
      rw [hopening, ← hmark.1, List.length_append, List.length_cons] at hbehind
      rcases hbehind with hlength | hmem
      · omega
      · exact absurd (by simp) hmem

/-- What two marks stand at the end of ends in them. -/
private theorem eq_append_of_take_reverse {cs : List Char} {m : Char}
    (h : ((cs.map Glyph.char).reverse ++ []).take 2 = [.char m, .char m]) :
    ∃ before, cs = before ++ [m, m] := by
  refine ⟨cs.reverse.tail.tail.reverse, ?_⟩
  rw [List.append_nil, ← List.map_reverse, ← List.map_take] at h
  -- The last two characters are read off the reversed list.
  have htake : cs.reverse.take 2 = [m, m] := by
    apply map_char_injective
    exact h
  have hsplit := List.take_append_drop 2 cs.reverse
  rw [htake] at hsplit
  have := congrArg List.reverse hsplit
  rw [List.reverse_reverse] at this
  rw [← this]
  simp

/-- The word at the beginning of a section or a comment is passed over. -/
private theorem afterWord?_map_char {word : List Char} (hword : word.map Char.toUpper = word)
    (r : List Glyph) : afterWord? word (word.map .char ++ r) = some r := by
  induction word with
  | nil => rfl
  | cons c word ih =>
    obtain ⟨hc, hword⟩ := List.cons.inj hword
    rw [List.map_cons, List.cons_append, afterWord?, if_pos hc, ih hword]

/-- What is left before the two marks at the end. -/
private theorem take_length_sub_two (cs : List Glyph) (g : Glyph) :
    (cs ++ [g, g]).take ((cs ++ [g, g]).length - 2) = cs := by
  rw [List.length_append]
  exact List.take_left

/-- Between its word and its marks a section has its text. -/
private theorem marked?_section {s content body r : List Glyph}
    (hend : markedEnd? (.char ']') 0 [] (.char '[' :: s) = some (content, r))
    (hword : afterWord? "[CDATA[".toList content = some body) :
    marked? (.char '[' :: s) = some (.cdata (body.take (body.length - 2)), r) := by
  simp only [marked?, hend, hword, Option.bind_eq_bind, Option.bind_some]
  rfl

/-- So has a comment. -/
private theorem marked?_comment {s content body r : List Glyph}
    (hend : markedEnd? (.char '-') 4 [] (.char '-' :: s) = some (content, r))
    (hword : afterWord? "--".toList content = some body) :
    marked? (.char '-' :: s) = some (.comment (body.take (body.length - 2)), r) := by
  simp only [marked?, hend, hword, Option.bind_eq_bind, Option.bind_some]
  rfl

/-- What is written of a character data section. -/
def sectionChars (t : String) : List Char :=
  ['<', '!', '[', 'C', 'D', 'A', 'T', 'A', '['] ++ (t.toList ++ [']', ']', '>'])

/-- What is written of a comment. -/
def commentChars (t : String) : List Char :=
  ['<', '!', '-', '-'] ++ (t.toList ++ ['-', '-', '>'])

/-- What follows the exclamation mark of a character data section. -/
private def sectionOpening : List Char := ['[', 'C', 'D', 'A', 'T', 'A', '[']

/-- A character data section. -/
theorem next?_cdata {t : String} (h : ¬[']', ']', '>'] <:+: t.toList) (r : List Glyph) :
    next? ((sectionChars t).map .char ++ r) = some (some (.cdata (t.toList.map .char), r)) := by
  -- No bracket of the text ends the section: two marks before it would make up the end that the
  -- text does not contain.
  have hearly : ∀ before after, sectionOpening ++ t.toList = before ++ '>' :: after →
      ¬(((before.map Glyph.char).reverse ++ []).take 2 = [.char ']', .char ']'] ∧
        0 ≤ before.length + 0) := by
    rintro before after hsplit ⟨htake, -⟩
    obtain ⟨before, rfl⟩ := eq_append_of_take_reverse htake
    have hsplit : sectionOpening ++ t.toList = before ++ ']' :: [']', '>'] ++ after := by
      rw [hsplit, List.append_assoc, List.append_assoc]
      rfl
    exact h (isInfix_of_append hsplit (.inr (by decide)))
  have hend := markedEnd?_written (by decide) hearly (Nat.zero_le _) r
  have hword : afterWord? "[CDATA[".toList
      ([].reverse ++ (sectionOpening ++ t.toList).map .char ++ [.char ']', .char ']']) =
        some (t.toList.map .char ++ [.char ']', .char ']']) := by
    rw [List.reverse_nil, List.nil_append, List.map_append, List.append_assoc]
    exact afterWord?_map_char (by decide) _
  have hmarked := marked?_section hend hword
  rw [take_length_sub_two] at hmarked
  rw [sectionChars, List.map_append, List.map_append, List.append_assoc, List.append_assoc]
  exact congrArg (Option.map some) hmarked

/-- A comment. Its first two dashes may not be taken for its last. -/
theorem next?_comment {t : String} (h : ¬['-', '-', '>'] <:+: t.toList) (r : List Glyph) :
    next? ((commentChars t).map .char ++ r) = some (some (.comment (t.toList.map .char), r)) := by
  -- For a comment the marks may reach into its opening, which its least length excludes.
  have hearly : ∀ before after, ['-', '-'] ++ t.toList = before ++ '>' :: after →
      ¬(((before.map Glyph.char).reverse ++ []).take 2 = [.char '-', .char '-'] ∧
        4 ≤ before.length + 0) := by
    rintro before after hsplit ⟨htake, hlength⟩
    obtain ⟨before, rfl⟩ := eq_append_of_take_reverse htake
    have hsplit : ['-', '-'] ++ t.toList = before ++ '-' :: ['-', '>'] ++ after := by
      rw [hsplit, List.append_assoc, List.append_assoc]
      rfl
    rw [List.length_append] at hlength
    exact h (isInfix_of_append hsplit (.inl (by simpa using hlength)))
  have hend := markedEnd?_written (by decide) hearly (by simp) r
  have hword : afterWord? "--".toList
      ([].reverse ++ (['-', '-'] ++ t.toList).map .char ++ [.char '-', .char '-']) =
        some (t.toList.map .char ++ [.char '-', .char '-']) := by
    rw [List.reverse_nil, List.nil_append, List.map_append, List.append_assoc]
    exact afterWord?_map_char (by decide) _
  have hmarked := marked?_comment hend hword
  rw [take_length_sub_two] at hmarked
  rw [commentChars, List.map_append, List.map_append, List.append_assoc, List.append_assoc]
  exact congrArg (Option.map some) hmarked

/-- The declaration of a document. -/
theorem next?_declaration (r : List Glyph) :
    next? (declarationText.toList.map .char ++ r) = some (some (.declaration, r)) := by
  rfl

end Token

end SheetTemplate.Xml
