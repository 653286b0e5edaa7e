import Mathlib.Data.List.Infix
import Mathlib.Data.List.TakeWhile
import SheetTemplate.Fill.Content

/-!
# Filling a text

`splice` fills the placeholders of a text one after another, and each of them wherever its text
stands by then: in the text, in a value that was put in before, or across the seam of both. Where
the text of no placeholder turns up but at a placeholder still to be filled, all of them are filled
at once: each gives way to its value, and every other character is kept.

## Key results

- `Text.replaceAll_flatMap`: replacing a word that occurs only as a piece of a text
- `Placeholder.segments`: the placeholders of a text and the characters between them
- `spliceOne_filledWhere`, `splice_eq_filled`: one placeholder, and all of them
- `undisturbed_of_no_brace`: texts and values whose braces are not in the way
-/

namespace SheetTemplate

/-! ### Words in a text -/

namespace Text

/-- The number of places where a word begins. -/
def occurrences (word text : List Char) : Nat := text.tails.countP fun t => word.isPrefixOf t

/-- A word occurs in a text where its rest does, and perhaps at the beginning. -/
theorem occurrences_cons (word : List Char) (c : Char) (r : List Char) :
    occurrences word (c :: r) = occurrences word r + if word.isPrefixOf (c :: r) then 1 else 0 := by
  rw [occurrences, List.tails_cons, List.countP_cons, occurrences]

/-- A longer text has at least the same occurrences. -/
theorem occurrences_le_append (word u r : List Char) :
    occurrences word r ≤ occurrences word (u ++ r) := by
  induction u with
  | nil => exact le_rfl
  | cons c u ih =>
    rw [List.cons_append, occurrences_cons]
    exact Nat.le_add_right_of_le ih

/-- With the word itself in front it has one more. -/
theorem occurrences_lt_append {word : List Char} (hword : word ≠ []) (r : List Char) :
    occurrences word r < occurrences word (word ++ r) := by
  obtain ⟨c, word', rfl⟩ := List.exists_cons_of_ne_nil hword
  have hprefix : (c :: word').isPrefixOf (c :: (word' ++ r)) = true :=
    List.isPrefixOf_iff_prefix.2 (List.prefix_append (c :: word') r)
  rw [List.cons_append, occurrences_cons, if_pos hprefix]
  exact Nat.lt_succ_of_le (occurrences_le_append ..)

/-! ### Replacing a word -/

/-- A text in which no occurrence begins is passed over. -/
theorem replaceAll_append_of_occurrences {word u r : List Char}
    (h : occurrences word (u ++ r) = occurrences word r) (new : List Char) :
    replaceAll word new (u ++ r) = u ++ replaceAll word new r := by
  -- Along the first part: an occurrence in it would make the count larger.
  induction u with
  | nil => rfl
  | cons c u ih =>
    have hle := occurrences_le_append word u r
    rw [List.cons_append, occurrences_cons] at h
    have hprefix : ¬word.isPrefixOf (c :: (u ++ r)) = true := by
      intro hprefix
      rw [if_pos hprefix] at h
      omega
    rw [if_neg hprefix] at h
    rw [List.cons_append, replaceAll_cons_of_not_prefix hprefix, ih h, List.cons_append]

section Pieces

variable {α : Type} {word : List Char} {hit : α → Bool} {piece : α → List Char}

/-- Each hit is an occurrence of the word, and there may be others. -/
private theorem countP_le_occurrences (hword : word ≠ []) {xs : List α}
    (hpiece : ∀ x ∈ xs, hit x = true → piece x = word) :
    xs.countP hit ≤ occurrences word (xs.flatMap piece) := by
  induction xs with
  | nil => exact Nat.zero_le _
  | cons x xs ih =>
    rw [List.forall_mem_cons] at hpiece
    have hrest := ih hpiece.2
    rw [List.countP_cons, List.flatMap_cons]
    -- At a hit the word stands in full; any other piece can only add occurrences.
    split
    · rename_i hx
      rw [hpiece.1 hx]
      exact Nat.lt_of_le_of_lt hrest (occurrences_lt_append hword _)
    · exact hrest.trans (occurrences_le_append ..)

/-- In a text made of pieces, a word that occurs only as such a piece is replaced there. -/
theorem replaceAll_flatMap (hword : word ≠ []) (new : List Char) {xs : List α}
    (hpiece : ∀ x ∈ xs, hit x = true → piece x = word)
    (hcount : occurrences word (xs.flatMap piece) = xs.countP hit) :
    replaceAll word new (xs.flatMap piece) =
      xs.flatMap fun x => if hit x = true then new else piece x := by
  -- As every occurrence is a hit, none begins in another piece or reaches across a seam.
  induction xs with
  | nil => rfl
  | cons x xs ih =>
    rw [List.forall_mem_cons] at hpiece
    have hrest := countP_le_occurrences hword hpiece.2
    rw [List.countP_cons, List.flatMap_cons] at hcount
    rw [List.flatMap_cons, List.flatMap_cons]
    by_cases hx : hit x = true
    · rw [if_pos hx, hpiece.1 hx] at hcount
      have := occurrences_lt_append hword (xs.flatMap piece)
      rw [if_pos hx, hpiece.1 hx, replaceAll_append_word hword, ih hpiece.2 (by omega)]
    · rw [if_neg hx] at hcount
      have := occurrences_le_append word (piece x) (xs.flatMap piece)
      rw [if_neg hx, replaceAll_append_of_occurrences (by omega), ih hpiece.2 (by omega)]

end Pieces

end Text

/-! ### The segments of a text -/

namespace Placeholder

open Text (occurrences occurrences_cons)

/-- What is found at a placeholder is its body between the marks. -/
theorem eq_of_bodyAt? {s body rest : List Char} (h : bodyAt? s = some (body, rest)) :
    s = written body ++ rest ∧ body ≠ [] ∧ ∀ c ∈ body, isBodyChar c = true := by
  unfold bodyAt? at h
  split at h
  · rename_i r
    split at h
    · rename_i c body' rest' htake hdrop
      simp only [Option.some.injEq, Prod.mk.injEq] at h
      obtain ⟨rfl, rfl⟩ := h
      have hr := List.takeWhile_append_dropWhile (p := isBodyChar) (l := r)
      rw [htake, hdrop] at hr
      refine ⟨by simp [written, ← hr], List.cons_ne_nil _ _, fun x hx => ?_⟩
      rw [← htake] at hx
      exact List.mem_takeWhile_imp hx
    · cases h
  · cases h

/-- A placeholder of a text, or a character of it that is in none. -/
inductive Segment where
  | char (c : Char)
  | body (text : List Char)
deriving DecidableEq, Repr

/-- The placeholders of a text and the characters between them. -/
def segments (s : List Char) : List Segment :=
  match h : bodyAt? s with
  | some (body, rest) =>
    have := length_lt_of_bodyAt? h
    .body body :: segments rest
  | none =>
    match s with
    | [] => []
    | c :: r => .char c :: segments r
termination_by s.length


namespace Segment

/-- A segment as it stands in the text. -/
def text : Segment → List Char
  | char c => [c]
  | body b => written b

/-- No segment is empty. -/
theorem text_ne_nil (x : Segment) : x.text ≠ [] := by
  cases x <;> exact List.cons_ne_nil _ _

/-- The body of a segment that is a placeholder. -/
def body? : Segment → Option (List Char)
  | char _ => none
  | body b => some b

/-- The placeholder of a segment; none if its body has no name. -/
def token? (x : Segment) : Option Placeholder := x.body?.bind (ofBody? false)

/-- A single character is no placeholder. -/
@[simp]
theorem token?_char (c : Char) : token? (.char c) = none := rfl

end Segment

/-- A text that begins with a placeholder has it as its first segment. -/
theorem segments_of_bodyAt? {s body rest : List Char} (h : bodyAt? s = some (body, rest)) :
    segments s = .body body :: segments rest := by
  rw [segments]
  split
  · rename_i h'
    cases h.symm.trans h'
    rfl
  · rename_i h'
    cases h.symm.trans h'

/-- A text that does not has its first character as the first segment. -/
theorem segments_cons {c : Char} {r : List Char} (h : bodyAt? (c :: r) = none) :
    segments (c :: r) = .char c :: segments r := by
  rw [segments]
  split
  · rename_i h'
    cases h.symm.trans h'
  · rfl

/-- A property of all texts, from what they begin with: a placeholder or another character. -/
theorem segments_induction {motive : List Char → Prop} (nil : motive [])
    (body : ∀ body rest, (∀ c ∈ body, isBodyChar c = true) →
      bodyAt? (written body ++ rest) = some (body, rest) → motive rest →
      motive (written body ++ rest))
    (char : ∀ c r, bodyAt? (c :: r) = none → motive r → motive (c :: r)) (s : List Char) :
    motive s := by
  induction s using segments.induct with
  | case1 s b rest h hlt ih =>
    obtain ⟨rfl, -, hchars⟩ := eq_of_bodyAt? h
    exact body b rest hchars h ih
  | case2 h => exact nil
  | case3 c r h ih => exact char c r h ih

/-- Segments lose nothing. -/
theorem flatMap_segments (s : List Char) : (segments s).flatMap Segment.text = s := by
  induction s using segments_induction with
  | nil => simp [segments, bodyAt?]
  | body body rest _ h ih =>
    rw [segments_of_bodyAt? h, List.flatMap_cons, ih]
    rfl
  | char c r h ih =>
    rw [segments_cons h, List.flatMap_cons, ih]
    rfl

/-- The bodies of a text are those of its segments. -/
theorem filterMap_body?_segments (s : List Char) :
    (segments s).filterMap Segment.body? = bodies s := by
  -- The induction goes from segment to segment, as the bodies are found.
  induction s using segments_induction with
  | nil => simp [segments, bodies, bodyAt?]
  | body body rest _ h ih =>
    rw [segments_of_bodyAt? h, List.filterMap_cons, Segment.body?, ih, eq_comm, bodies]
    split
    · rename_i h'
      cases h.symm.trans h'
      rfl
    · rename_i h'
      cases h.symm.trans h'
  | char c r h ih =>
    rw [segments_cons h, List.filterMap_cons, Segment.body?, ih, eq_comm, bodies]
    split
    · rename_i h'
      cases h.symm.trans h'
    · rfl

/-- Whether a placeholder is the whole text is all that the text around it says of it. -/
theorem ofBody?_eq_map (full : Bool) (body : List Char) :
    ofBody? full body = (ofBody? false body).map fun p => { p with full } := by
  simp only [ofBody?]
  split <;> rfl

/-- The text of a placeholder is its body between the marks. -/
theorem text_of_ofBody? {full : Bool} {body : List Char} {p : Placeholder}
    (h : ofBody? full body = some p) : p.text = String.ofList (written body) := by
  simp only [ofBody?] at h
  split at h
  · cases h
  · cases h
    rfl

/-- Placeholders are extracted from the segments that are some. -/
theorem extract_eq_filterMap (text : String) :
    extract text = (segments text.toList).filterMap fun x =>
      x.body?.bind fun body => ofBody? (written body == text.toList) body := by
  rw [extract, ← filterMap_body?_segments, List.filterMap_filterMap]

/-- The texts that placeholders are found with, from left to right. -/
theorem map_text_extract (text : String) :
    (extract text).map Placeholder.text =
      (segments text.toList).filterMap fun x => x.token?.map Placeholder.text := by
  rw [extract_eq_filterMap, List.map_filterMap]
  congr 1
  funext x
  rw [Segment.token?]
  cases x.body? with
  | none => rfl
  | some body =>
    rw [Option.bind_some, Option.bind_some, ofBody?_eq_map, Option.map_map]
    rfl

/-- Every placeholder found is that of a segment. -/
theorem exists_token_of_mem_extract {text : String} {p : Placeholder} (h : p ∈ extract text) :
    ∃ q, p = { q with full := p.full } ∧ ∃ x ∈ segments text.toList, x.token? = some q := by
  rw [extract_eq_filterMap, List.mem_filterMap] at h
  obtain ⟨x, hx, hp⟩ := h
  rw [Option.bind_eq_some_iff] at hp
  obtain ⟨body, hbody, hp⟩ := hp
  rw [ofBody?_eq_map, Option.map_eq_some_iff] at hp
  obtain ⟨q, hq, rfl⟩ := hp
  exact ⟨q, rfl, x, hx, by rw [Segment.token?, hbody, Option.bind_some, hq]⟩

/-- Every placeholder of a segment is found. -/
theorem exists_mem_extract_of_token? {text : String} {x : Segment} {q : Placeholder}
    (hx : x ∈ segments text.toList) (h : x.token? = some q) :
    ∃ p ∈ extract text, p = { q with full := p.full } := by
  rw [Segment.token?, Option.bind_eq_some_iff] at h
  obtain ⟨body, hbody, hq⟩ := h
  refine ⟨{ q with full := written body == text.toList }, ?_, rfl⟩
  rw [extract_eq_filterMap, List.mem_filterMap]
  refine ⟨x, hx, ?_⟩
  rw [hbody, Option.bind_some, ofBody?_eq_map, hq, Option.map_some]

/-- A segment with a placeholder stands in the text as the placeholder is written. -/
theorem text_of_token? {x : Segment} {p : Placeholder} (h : x.token? = some p) :
    p.text.toList = x.text := by
  rw [Segment.token?, Option.bind_eq_some_iff] at h
  obtain ⟨body, hbody, hp⟩ := h
  cases x with
  | char c => cases hbody
  | body b =>
    cases hbody
    rw [text_of_ofBody? hp, String.toList_ofList, Segment.text]

/-- Placeholders that are written alike are the same. -/
theorem eq_of_token? {x y : Segment} {p q : Placeholder} (hx : x.token? = some p)
    (hy : y.token? = some q) (h : p.text = q.text) : p = q := by
  have htext : x.text = y.text := by rw [← text_of_token? hx, h, text_of_token? hy]
  cases x with
  | char c => cases hx
  | body b =>
    cases y with
    | char c => cases hy
    | body b' =>
      obtain rfl : b = b' := by simpa [Segment.text, written] using htext
      exact Option.some_inj.1 (hx.symm.trans hy)

/-- The body of a segment was found at the front of a text. -/
theorem exists_bodyAt?_of_mem_segments {s body : List Char} (h : .body body ∈ segments s) :
    ∃ t rest, bodyAt? t = some (body, rest) := by
  -- From segment to segment, up to the one asked for.
  induction s using segments_induction with
  | nil => simp [segments, bodyAt?] at h
  | body body' rest _ hbody ih =>
    rw [segments_of_bodyAt? hbody, List.mem_cons] at h
    obtain h | h := h
    · cases h
      exact ⟨_, _, hbody⟩
    · exact ih h
  | char c r hbody ih =>
    rw [segments_cons hbody, List.mem_cons] at h
    exact ih (h.resolve_left (by simp))

/-- The body of a segment has no braces. -/
theorem isBodyChar_of_mem_segments {s body : List Char} (h : .body body ∈ segments s) :
    ∀ c ∈ body, isBodyChar c = true := by
  obtain ⟨t, rest, hbody⟩ := exists_bodyAt?_of_mem_segments h
  exact (eq_of_bodyAt? hbody).2.2

/-! ### Braces -/

/-- A placeholder needs its opening brace: it begins nowhere in a text without one, unless the brace
comes next. -/
theorem occurrences_written_append {body u r : List Char} (hu : '{' ∉ u)
    (hr : ∀ r', r ≠ '{' :: r') :
    occurrences (written body) (u ++ r) = occurrences (written body) r := by
  -- A word that begins in the first part has its second character, the brace, there or right after
  -- it.
  induction u with
  | nil => rfl
  | cons c u ih =>
    rw [List.mem_cons, not_or] at hu
    have hprefix : ¬(written body).isPrefixOf (c :: (u ++ r)) = true := by
      intro hprefix
      obtain ⟨t, ht⟩ := List.isPrefixOf_iff_prefix.1 hprefix
      have hbrace := (List.cons.inj ht).2
      cases u with
      | nil => exact hr _ hbrace.symm
      | cons c' u' => exact hu.2 ((List.cons.inj hbrace).1 ▸ List.mem_cons_self)
    rw [List.cons_append, occurrences_cons, if_neg hprefix, ih hu.2, Nat.add_zero]

/-- Only a placeholder itself begins where one is written. -/
theorem written_isPrefixOf_iff {body body' r : List Char}
    (hbody : ∀ c ∈ body, isBodyChar c = true) (hbody' : ∀ c ∈ body', isBodyChar c = true) :
    (written body).isPrefixOf (written body' ++ r) = true ↔ body = body' := by
  rw [List.isPrefixOf_iff_prefix]
  constructor
  · rintro ⟨t, ht⟩
    have hopen : body ++ '}' :: t = body' ++ '}' :: r := by simpa [written] using ht
    have htake := congrArg (List.takeWhile isBodyChar) hopen
    rw [List.takeWhile_append_of_pos hbody, List.takeWhile_append_of_pos hbody'] at htake
    simpa [isBodyChar] using htake
  · rintro rfl
    exact List.prefix_append ..

/-- Where a placeholder is written begins no other one. -/
theorem occurrences_written_append_written {body body' r : List Char}
    (hbody : ∀ c ∈ body, isBodyChar c = true) (hbody' : ∀ c ∈ body', isBodyChar c = true)
    (hr : ∀ r', r ≠ '{' :: r') :
    occurrences (written body) (written body' ++ r) =
      occurrences (written body) r + if body = body' then 1 else 0 := by
  have hinner : '{' ∉ body' ++ ['}'] := by
    rw [List.mem_append, not_or]
    exact ⟨fun h => absurd (hbody' _ h) (by decide), by decide⟩
  have hopen : ¬(written body).isPrefixOf ('{' :: (body' ++ ['}'] ++ r)) = true := by
    simp [written]
  have hfirst : (written body).isPrefixOf ('$' :: '{' :: (body' ++ ['}'] ++ r)) = true ↔
      body = body' := written_isPrefixOf_iff hbody hbody'
  change occurrences (written body) ('$' :: '{' :: (body' ++ ['}'] ++ r)) = _
  rw [occurrences_cons, occurrences_cons, if_neg hopen, occurrences_written_append hinner hr]
  simp only [hfirst, Nat.add_zero]

end Placeholder

/-! ### Filling at once -/

namespace Fill

open Placeholder (Segment segments extract written)
open Text (occurrences replaceAll)

/-- A segment once the placeholders with the chosen texts are filled. A placeholder without a name
is kept. -/
def fillSegment (values : Substitutions) (chosen : String → Bool) (x : Segment) : List Char :=
  match x.token? with
  | some p => if chosen p.text then (spliceText values p).toList else x.text
  | none => x.text

/-- A text with the chosen placeholders filled at once: each gives way to the text of its value,
which is empty if there is none, and everything else is kept. -/
def filledWhere (values : Substitutions) (chosen : String → Bool) (text : String) : String :=
  String.ofList ((segments text.toList).flatMap (fillSegment values chosen))

/-- A text with all its placeholders filled at once. -/
def filled (values : Substitutions) (text : String) : String :=
  filledWhere values (fun _ => true) text

/-- The texts of the first placeholders of a text. -/
def firstTexts (count : Nat) (text : String) : List String :=
  ((extract text).take count).map Placeholder.text

/-- Whether every placeholder of a text, when its turn comes, is found only where it is still to be
filled: as often as the text has it, and nowhere if its like was filled before. -/
def Undisturbed (values : Substitutions) (text : String) : Prop :=
  ∀ i : Fin (extract text).length,
    let token := (extract text)[i].text
    let before := firstTexts i text
    occurrences token.toList (filledWhere values (· ∈ before) text).toList =
      if token ∈ before then 0 else ((extract text).map Placeholder.text).count token

instance (values : Substitutions) (text : String) : Decidable (Undisturbed values text) :=
  inferInstanceAs (Decidable (∀ _ : Fin _, _ = _))

/-- Filling nothing changes nothing. -/
theorem filledWhere_of_none (values : Substitutions) (text : String) :
    filledWhere values (fun _ => false) text = text := by
  have hsegment : fillSegment values (fun _ => false) = Segment.text := by
    funext x
    unfold fillSegment
    split <;> simp
  rw [filledWhere, hsegment, Placeholder.flatMap_segments, String.ofList_toList]

/-- Only what is chosen of the placeholders of a text matters. -/
theorem filledWhere_congr {values : Substitutions} {chosen chosen' : String → Bool} {text : String}
    (h : ∀ p ∈ extract text, chosen p.text = chosen' p.text) :
    filledWhere values chosen text = filledWhere values chosen' text := by
  rw [filledWhere, filledWhere]
  refine congrArg String.ofList (List.flatMap_congr fun x hx => ?_)
  unfold fillSegment
  split
  · rename_i q hq
    obtain ⟨p, hp, htext⟩ := Placeholder.exists_mem_extract_of_token? hx hq
    have hchosen := h p hp
    rw [htext] at hchosen
    rw [hchosen]
  · rfl

/-- Whether a segment is a placeholder with a text that was not filled before. -/
private def isNext (before : List String) (token : String) (x : Segment) : Bool :=
  token ∉ before && x.token?.map Placeholder.text == some token

/-- The segments to be filled next are those of the placeholder, unless it was filled before. -/
private theorem isNext_iff {before : List String} {token : String} {x : Segment} :
    isNext before token x = true ↔
      token ∉ before ∧ ∃ p, x.token? = some p ∧ p.text = token := by
  simp [isNext]

/-- There are as many of them as times the placeholder was extracted. -/
private theorem countP_isNext (before : List String) (token text : String) :
    (segments text.toList).countP (isNext before token) =
      if token ∈ before then 0 else ((extract text).map Placeholder.text).count token := by
  split
  · rename_i hbefore
    rw [List.countP_eq_zero]
    intro x _ hnext
    exact (isNext_iff.1 hnext).1 hbefore
  · rename_i hbefore
    rw [Placeholder.map_text_extract, List.count, List.countP_filterMap]
    refine List.countP_congr fun x _ => ?_
    rw [isNext_iff]
    cases x.token? <;> simp [hbefore]

/-- What a segment becomes when one more placeholder is filled. -/
private theorem fillSegment_append {values : Substitutions} {before : List String}
    {q : Placeholder} {x₀ : Segment} (hx₀ : x₀.token? = some q) (x : Segment) :
    fillSegment values (· ∈ before ++ [q.text]) x =
      if isNext before q.text x = true then (spliceText values q).toList
      else fillSegment values (· ∈ before) x := by
  cases hx : x.token? with
  | none =>
    have hnext : isNext before q.text x = false := by simp [isNext, hx]
    rw [hnext, if_neg (by decide), fillSegment, fillSegment, hx]
  | some r =>
    -- Placeholders of one text are one placeholder.
    by_cases htext : r.text = q.text
    · obtain rfl := Placeholder.eq_of_token? hx hx₀ htext
      by_cases hbefore : r.text ∈ before
      · simp [isNext, fillSegment, hx, hbefore]
      · simp [isNext, fillSegment, hx, hbefore]
    · have hnext : isNext before q.text x = false := by simp [isNext, hx, htext]
      rw [hnext, if_neg (by decide)]
      simp [fillSegment, hx, htext]

/-- A placeholder that stands only where it is still to be filled is filled there. -/
theorem spliceOne_filledWhere {values : Substitutions} {text : String} {before : List String}
    {p : Placeholder} (hp : p ∈ extract text)
    (h : occurrences p.text.toList (filledWhere values (· ∈ before) text).toList =
      if p.text ∈ before then 0 else ((extract text).map Placeholder.text).count p.text) :
    spliceOne values (filledWhere values (· ∈ before) text) p =
      filledWhere values (· ∈ before ++ [p.text]) text := by
  obtain ⟨q, hq, x₀, -, hx₀⟩ := Placeholder.exists_token_of_mem_extract hp
  have htext : p.text = q.text := by rw [hq]
  have hvalue : spliceText values p = spliceText values q := by rw [hq]; rfl
  rw [← countP_isNext, filledWhere, String.toList_ofList, htext] at h
  rw [spliceOne, htext, hvalue, filledWhere, String.toList_ofList,
    Text.replaceAll_flatMap (Placeholder.text_of_token? hx₀ ▸ x₀.text_ne_nil) _ ?_ h, filledWhere]
  · exact congrArg String.ofList (List.flatMap_congr fun x _ => (fillSegment_append hx₀ x).symm)
  · intro x _ hnext
    obtain ⟨hbefore, r, hr, hrtext⟩ := isNext_iff.1 hnext
    simp [fillSegment, hr, hrtext, hbefore, ← Placeholder.text_of_token? hr]

/-- The first placeholders of an undisturbed text are filled at once. -/
theorem foldl_spliceOne_take {values : Substitutions} {text : String}
    (h : Undisturbed values text) {count : Nat} (hcount : count ≤ (extract text).length) :
    ((extract text).take count).foldl (spliceOne values) text =
      filledWhere values (· ∈ firstTexts count text) text := by
  -- One placeholder more in each step; what was filled so far is filled at once.
  induction count with
  | zero =>
    rw [List.take_zero, List.foldl_nil, firstTexts]
    simpa using (filledWhere_of_none values text).symm
  | succ count ih =>
    have hlt : count < (extract text).length := hcount
    have hmore : firstTexts (count + 1) text =
        firstTexts count text ++ [(extract text)[count].text] := by
      rw [firstTexts, firstTexts, List.take_succ_eq_append_getElem hlt, List.map_append]
      rfl
    rw [List.take_succ_eq_append_getElem hlt, List.foldl_append, List.foldl_cons, List.foldl_nil,
      ih (Nat.le_of_lt hlt), hmore]
    exact spliceOne_filledWhere (List.getElem_mem hlt) (h ⟨count, hlt⟩)

/-- The placeholders of an undisturbed text are filled at once. -/
theorem splice_eq_filled (values : Substitutions) (text : String) (h : Undisturbed values text) :
    splice values text = filled values text := by
  have hall := foldl_spliceOne_take h le_rfl
  rw [List.take_length] at hall
  rw [splice, hall, filled]
  refine filledWhere_congr fun p hp => ?_
  simpa [firstTexts] using ⟨p, hp, rfl⟩

/-- Two placeholders whose values show the text of a third, and a brace that begins none. -/
theorem splice_eq_filled_sample :
    Undisturbed [("a", .text "$\x7bc\x7d"), ("b", .text "$\x7ba\x7d")]
      "\x7b $\x7ba\x7d $\x7bb\x7d" ∧
    splice [("a", .text "$\x7bc\x7d"), ("b", .text "$\x7ba\x7d")]
      "\x7b $\x7ba\x7d $\x7bb\x7d" = "\x7b $\x7bc\x7d $\x7ba\x7d" :=
  ⟨by decide +kernel, (splice_eq_filled _ _ (by decide +kernel)).trans (by decide +kernel)⟩

/-- The value of a placeholder is filled when it shows the text of a later one. -/
theorem value_filled_again :
    ¬∀ values text, splice values text = filled values text := by
  intro h
  have := h [("a", .text "$\x7bb\x7d"), ("b", .text "x")] "$\x7ba\x7d$\x7bb\x7d"
  revert this
  decide +kernel

/-! ### Braces that are not in the way -/

/-- Opening braces stand in the placeholders of a text only, and values bring none. -/
structure BracesAside (values : Substitutions) (x : Segment) : Prop where
  /-- An opening brace belongs to a placeholder. -/
  kept : x ≠ .char '{'
  /-- A body has no braces. -/
  body : ∀ body, x = .body body → ∀ c ∈ body, Placeholder.isBodyChar c = true
  /-- No opening brace comes from a value. -/
  value : ∀ p, x.token? = some p → '{' ∉ (spliceText values p).toList

/-- What is put for a segment does not begin with an opening brace. -/
private theorem fillSegment_ne_brace {values : Substitutions} {x : Segment}
    (hx : BracesAside values x) (chosen : String → Bool) (r : List Char) :
    fillSegment values chosen x ≠ '{' :: r := by
  intro h
  -- The text of a kept segment begins with a brace in none of the two cases.
  have htext : x.text ≠ '{' :: r := by
    intro htext
    cases x with
    | char c => exact hx.kept (congrArg Segment.char (List.cons.inj htext).1)
    | body b => exact absurd (List.cons.inj htext).1 (by decide)
  unfold fillSegment at h
  split at h
  · rename_i p hp
    split at h
    · exact hx.value p hp (h ▸ List.mem_cons_self)
    · exact htext h
  · exact htext h

private theorem flatMap_fillSegment_ne_brace {values : Substitutions} {xs : List Segment}
    (hxs : ∀ x ∈ xs, BracesAside values x) (chosen : String → Bool) (r : List Char) :
    xs.flatMap (fillSegment values chosen) ≠ '{' :: r := by
  -- The first segment that is not filled with nothing decides.
  induction xs with
  | nil => exact List.cons_ne_nil _ _ ∘ Eq.symm
  | cons x xs ih =>
    rw [List.forall_mem_cons] at hxs
    rw [List.flatMap_cons]
    cases hx : fillSegment values chosen x with
    | nil => exact ih hxs.2
    | cons c u =>
      intro h
      obtain ⟨rfl, -⟩ := List.cons.inj h
      exact fillSegment_ne_brace hxs.1 chosen u hx

/-- A placeholder occurs at a segment only if this is still to be filled with its value. -/
private theorem occurrences_fillSegment {values : Substitutions} {before : List String}
    {q : Placeholder} {body : List Char} (hq : Segment.token? (.body body) = some q)
    (hbody : ∀ c ∈ body, Placeholder.isBodyChar c = true) {x : Segment}
    (hx : BracesAside values x) {r : List Char} (hr : ∀ r', r ≠ '{' :: r') :
    occurrences (written body) (fillSegment values (· ∈ before) x ++ r) =
      occurrences (written body) r + if isNext before q.text x = true then 1 else 0 := by
  -- A single character is kept; a body is that of no placeholder, of one that was filled, or of one
  -- still to be filled.
  cases x with
  | char c =>
    have hnext : isNext before q.text (.char c) = false := by simp [isNext]
    rw [hnext]
    have hc : '{' ∉ [c] := by
      rw [List.mem_singleton]
      rintro rfl
      exact hx.kept rfl
    exact Placeholder.occurrences_written_append hc hr
  | body b =>
    have hwritten := Placeholder.occurrences_written_append_written hbody (hx.body b rfl) hr
    cases hp : Segment.token? (.body b) with
    | none =>
      have hne : body ≠ b := by
        rintro rfl
        cases hq.symm.trans hp
      have hnext : isNext before q.text (.body b) = false := by simp [isNext, hp]
      rw [hnext, fillSegment, hp, Segment.text, hwritten, if_neg hne, if_neg (by decide)]
    | some p =>
      by_cases hbefore : p.text ∈ before
      · have hnext : isNext before q.text (.body b) = false := by
          rw [Bool.eq_false_iff, Ne, isNext_iff]
          rintro ⟨hq', p', hp', htext⟩
          cases hp.symm.trans hp'
          exact hq' (htext ▸ hbefore)
        rw [hnext, fillSegment, hp]
        simpa [hbefore] using Placeholder.occurrences_written_append (hx.value p hp) hr
      · have hnext : isNext before q.text (.body b) = true ↔ body = b := by
          rw [isNext_iff]
          constructor
          · rintro ⟨-, p', hp', htext⟩
            have := (Placeholder.text_of_token? hp').symm.trans
              ((congrArg String.toList htext).trans (Placeholder.text_of_token? hq))
            simpa [Segment.text, written] using this.symm
          · rintro rfl
            cases hq.symm.trans hp
            exact ⟨hbefore, _, hp, rfl⟩
        simp only [hnext]
        rw [← hwritten, fillSegment, hp]
        simp [hbefore, Segment.text]

/-- Over all segments the occurrences of a placeholder are its own places. -/
private theorem occurrences_flatMap {values : Substitutions} {before : List String}
    {q : Placeholder} {body : List Char} (hq : Segment.token? (.body body) = some q)
    (hbody : ∀ c ∈ body, Placeholder.isBodyChar c = true) {xs : List Segment}
    (hxs : ∀ x ∈ xs, BracesAside values x) :
    occurrences (written body) (xs.flatMap (fillSegment values (· ∈ before))) =
      xs.countP (isNext before q.text) := by
  induction xs with
  | nil => simp [occurrences, written]
  | cons x xs ih =>
    rw [List.forall_mem_cons] at hxs
    rw [List.flatMap_cons, List.countP_cons,
      occurrences_fillSegment hq hbody hxs.1 (flatMap_fillSegment_ne_brace hxs.2 _), ih hxs.2]

/-- Nothing is disturbed if the text has opening braces in its placeholders only and its values have
none. -/
theorem undisturbed_of_no_brace {values : Substitutions} {text : String}
    (hkept : .char '{' ∉ segments text.toList)
    (hvalues : ∀ p ∈ extract text, '{' ∉ (spliceText values p).toList) :
    Undisturbed values text := by
  have haside : ∀ x ∈ segments text.toList, BracesAside values x := by
    intro x hx
    refine ⟨fun heq => hkept (heq ▸ hx),
      fun body heq => Placeholder.isBodyChar_of_mem_segments (heq ▸ hx), fun p hp => ?_⟩
    obtain ⟨p', hp', htoken⟩ := Placeholder.exists_mem_extract_of_token? hx hp
    have hvalue := hvalues p' hp'
    rwa [htoken] at hvalue
  -- Each placeholder that is filled next turns up at its own places only, which is what the
  -- condition says.
  intro i token before
  obtain ⟨q, hq, x, hx, hxq⟩ := Placeholder.exists_token_of_mem_extract (List.getElem_mem i.2)
  have htext : token = q.text := (congrArg Placeholder.text hq).trans rfl
  cases x with
  | char c => cases hxq
  | body body =>
    have hword : q.text.toList = written body := Placeholder.text_of_token? hxq
    rw [← countP_isNext, filledWhere, String.toList_ofList, htext, hword]
    exact occurrences_flatMap hxq ((haside _ hx).body body rfl) haside

end Fill

end SheetTemplate
