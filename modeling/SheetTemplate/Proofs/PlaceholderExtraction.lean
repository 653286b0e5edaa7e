import SheetTemplate.Proofs.PartNames
import SheetTemplate.Proofs.Splicing

/-!
# The placeholders of a text

A placeholder is a dollar sign and a body in braces. A body is not empty and has no braces, so that
no placeholder begins inside another one: all of them can be cut out of a text, and this cut is the
only one that leaves none. From left to right, `extract` gives a placeholder for each body that has
a name.

## Key results

- `eq_written_append`: a placeholder begins behind the one that a text begins with
- `cut_segments`, `Cut.eq_segments`: the cut of a text exists, and there is only one
- `extract_written`: a text that is one placeholder
- `extract_exact`: what is extracted from a text
-/

namespace SheetTemplate.Placeholder

open Text (pieces)

/-! ### Bodies -/

/-- What stands between the braces of a placeholder. -/
structure IsBody (body : List Char) : Prop where
  ne_nil : body ≠ []
  noOpen : '{' ∉ body
  noClose : '}' ∉ body

variable {body rest : List Char}

/-- The characters of a body are those that may stand in one. -/
theorem IsBody.isBodyChar (h : IsBody body) : ∀ c ∈ body, isBodyChar c = true := by
  intro c hc
  have hopen : c ≠ '{' := fun heq => h.noOpen (heq ▸ hc)
  have hclose : c ≠ '}' := fun heq => h.noClose (heq ▸ hc)
  simp [Placeholder.isBodyChar, hopen, hclose]

/-- What is read as a body is one. -/
theorem isBody_of_bodyAt? {s : List Char} (h : bodyAt? s = some (body, rest)) : IsBody body := by
  obtain ⟨-, hne, hchars⟩ := eq_of_bodyAt? h
  exact ⟨hne, fun hopen => absurd (hchars _ hopen) (by decide),
    fun hclose => absurd (hchars _ hclose) (by decide)⟩

/-- A body that is written is read back, with what follows it. -/
theorem bodyAt?_written (h : IsBody body) (rest : List Char) :
    bodyAt? (written body ++ rest) = some (body, rest) := by
  have hchars := h.isBodyChar
  obtain ⟨c, body, rfl⟩ := List.exists_cons_of_ne_nil h.ne_nil
  have hwritten : written (c :: body) ++ rest = '$' :: '{' :: ((c :: body) ++ '}' :: rest) := by
    -- The body ends at the first brace, which is the one that was written.
    simp [written]
  rw [hwritten, bodyAt?, List.takeWhile_append_of_pos hchars, List.dropWhile_append_of_pos hchars]
  have htake : ('}' :: rest).takeWhile Placeholder.isBodyChar = [] := by
    simp [Placeholder.isBodyChar]
  have hdrop : ('}' :: rest).dropWhile Placeholder.isBodyChar = '}' :: rest := by
    simp [Placeholder.isBodyChar]
  rw [htake, hdrop, List.append_nil]
  rfl

/-- Up to the end of a body there is no other opening brace, so what is opened is opened later. -/
private theorem eq_append_of_opened {before r : List Char} (hbody : '{' ∉ body)
    (h : body ++ '}' :: rest = before ++ '$' :: '{' :: r) :
    ∃ before', before = body ++ '}' :: before' ∧ rest = before' ++ '$' :: '{' :: r := by
  induction body generalizing before with
  | nil =>
    cases before with
    | nil => exact absurd (List.cons.inj h).1 (by decide)
    | cons c before =>
      obtain ⟨rfl, hrest⟩ := List.cons.inj h
      exact ⟨before, rfl, hrest⟩
  | cons c body ih =>
    obtain ⟨-, hbody⟩ := not_or.1 (List.mem_cons.not.1 hbody)
    cases before with
    | nil =>
      -- The opening brace would be the next character of the body, or the brace that closes it.
      have hnext : body ++ '}' :: rest = '{' :: r := (List.cons.inj h).2
      cases body with
      | nil => exact absurd (List.cons.inj hnext).1 (by decide)
      | cons d body => exact absurd ((List.cons.inj hnext).1 ▸ List.mem_cons_self) hbody
    | cons d before =>
      obtain ⟨rfl, hrest⟩ := List.cons.inj h
      obtain ⟨before', rfl, hafter⟩ := ih hbody hrest
      exact ⟨before', rfl, hafter⟩

/-- After the placeholder that a text begins with, the next one begins behind it. -/
theorem eq_written_append {before r : List Char} (hbody : IsBody body) (hbefore : before ≠ [])
    (h : written body ++ rest = before ++ '$' :: '{' :: r) :
    ∃ before', before = written body ++ before' ∧ rest = before' ++ '$' :: '{' :: r := by
  have hopened : '$' :: '{' :: (body ++ '}' :: rest) = before ++ '$' :: '{' :: r := by
    simpa [written] using h
  obtain _ | ⟨c, _ | ⟨d, before⟩⟩ := before
  · exact absurd rfl hbefore
  · exact absurd (List.cons.inj (List.cons.inj hopened).2).1 (by decide)
  · simp only [List.cons_append, List.cons.injEq] at hopened
    obtain ⟨rfl, rfl, hopened⟩ := hopened
    obtain ⟨before', rfl, hrest⟩ := eq_append_of_opened hbody.noOpen hopened
    exact ⟨before', by simp [written], hrest⟩

/-! ### The cut of a text -/

/-- A text cut at its placeholders, with single characters between them: the segments join to the
text, their bodies are bodies, and wherever a placeholder stands in the text, it is a segment
there. -/
structure Cut (s : List Char) (xs : List Segment) : Prop where
  joined : xs.flatMap Segment.text = s
  isBody : ∀ body, .body body ∈ xs → IsBody body
  complete : ∀ before body after, IsBody body → s = before ++ written body ++ after →
    ∃ front back, xs = front ++ .body body :: back ∧ front.flatMap Segment.text = before

/-- Every placeholder that stands in a text is found where it stands. -/
private theorem complete_segments (s before after : List Char) (hbody : IsBody body)
    (h : s = before ++ written body ++ after) :
    ∃ front back, segments s = front ++ .body body :: back ∧
      front.flatMap Segment.text = before := by
  rw [List.append_assoc] at h
  -- Along the scan: a placeholder begins right here, or behind what the scan passes now.
  induction s using segments_induction generalizing before with
  | nil => exact absurd h (by simp [written])
  | body first rest _ hfirst ih =>
    rw [segments_of_bodyAt? hfirst]
    obtain rfl | hbefore := eq_or_ne before []
    · rw [h, List.nil_append, bodyAt?_written hbody] at hfirst
      obtain ⟨rfl, -⟩ := Prod.mk.inj (Option.some.inj hfirst)
      exact ⟨[], _, rfl, rfl⟩
    · obtain ⟨before', rfl, hrest⟩ := eq_written_append (isBody_of_bodyAt? hfirst) hbefore h
      obtain ⟨front, back, hsegments, rfl⟩ := ih before' hrest
      exact ⟨.body first :: front, back, by rw [hsegments]; rfl, rfl⟩
  | char c r hnone ih =>
    rw [segments_cons hnone]
    cases before with
    | nil =>
      rw [h, List.nil_append, bodyAt?_written hbody] at hnone
      cases hnone
    | cons d before =>
      obtain ⟨rfl, hrest⟩ := List.cons.inj h
      obtain ⟨front, back, hsegments, rfl⟩ := ih before hrest
      exact ⟨.char c :: front, back, by rw [hsegments]; rfl, rfl⟩

/-- The segments of a text are a cut of it. -/
theorem cut_segments (s : List Char) : Cut s (segments s) where
  joined := flatMap_segments s
  isBody body hbody := by
    obtain ⟨t, rest, hfound⟩ := exists_bodyAt?_of_mem_segments hbody
    exact isBody_of_bodyAt? hfound
  complete before _ after hbody h := complete_segments s before after hbody h

/-- Behind the first segment, a cut is one of the rest of the text. -/
private theorem Cut.tail {s r : List Char} {x : Segment} {xs : List Segment} (h : Cut s (x :: xs))
    (hs : s = x.text ++ r) : Cut r xs where
  joined := by
    have hjoined := h.joined
    rw [List.flatMap_cons, hs] at hjoined
    exact List.append_cancel_left hjoined
  isBody body hbody := h.isBody body (List.mem_cons_of_mem _ hbody)
  -- A placeholder in the rest is one in the whole text, and the first segment is not empty.
  complete := by
    rintro before body after hbody rfl
    obtain ⟨front, back, hfront, hjoined⟩ :=
      h.complete (x.text ++ before) body after hbody (by rw [hs]; simp only [List.append_assoc])
    cases front with
    | nil => exact absurd (List.append_eq_nil_iff.1 hjoined.symm).1 x.text_ne_nil
    | cons y front =>
      obtain ⟨rfl, hback⟩ := List.cons.inj hfront
      exact ⟨front, back, hback, List.append_cancel_left hjoined⟩

/-- There is no other cut of a text than into its segments. -/
theorem Cut.eq_segments {s : List Char} {xs : List Segment} (h : Cut s xs) : xs = segments s := by
  induction xs generalizing s with
  | nil =>
    obtain rfl : [] = s := h.joined
    simp [segments, bodyAt?]
  | cons x xs ih =>
    obtain rfl : x.text ++ xs.flatMap Segment.text = s := h.joined
    have hrest := ih (h.tail rfl)
    cases x with
    | body body =>
      have hfound := bodyAt?_written (h.isBody body List.mem_cons_self) (xs.flatMap Segment.text)
      rw [Segment.text, segments_of_bodyAt? hfound, ← hrest]
    | char c =>
      have hnone : bodyAt? (c :: xs.flatMap Segment.text) = none := by
        -- A placeholder at the front would have to be the first segment.
        rw [Option.eq_none_iff_forall_ne_some]
        rintro ⟨body, rest⟩ hfound
        obtain ⟨front, back, hfront, hjoined⟩ :=
          h.complete [] body rest (isBody_of_bodyAt? hfound) (eq_of_bodyAt? hfound).1
        cases front with
        | nil => cases hfront
        | cons y front => exact absurd (List.append_eq_nil_iff.1 hjoined).1 y.text_ne_nil
      rw [Segment.text, List.singleton_append, segments_cons hnone, ← hrest]

/-! ### Names -/

/-- The path in a body: all of it if it has no colon, and otherwise what stands between the first
colon and the next one, or the end. -/
def pathOf (body : List Char) : List Char :=
  if ':' ∈ body then (body.dropWhile (· ≠ ':')).tail.takeWhile (· ≠ ':') else body

/-- The name in a body: its path up to the first point. -/
def nameOf (body : List Char) : List Char := (pathOf body).takeWhile (· ≠ '.')

/-- A character that does not occur differs from all that do. -/
private theorem ne_of_mem {c : Char} {s : List Char} (h : c ∉ s) :
    ∀ x ∈ s, decide (x ≠ c) = true :=
  fun _ hx => decide_eq_true fun heq => h (heq ▸ hx)

/-- Without the character, all is taken. -/
private theorem takeWhile_ne_of_not_mem {c : Char} {s : List Char} (h : c ∉ s) :
    s.takeWhile (· ≠ c) = s :=
  List.takeWhile_eq_self_iff.2 (ne_of_mem h)

/-- Up to the character, the text before it is taken. -/
private theorem takeWhile_ne_append {c : Char} {s : List Char} (h : c ∉ s) (t : List Char) :
    (s ++ c :: t).takeWhile (· ≠ c) = s := by
  rw [List.takeWhile_append_of_pos (ne_of_mem h)]
  simp

/-- What is left begins with the character. -/
private theorem dropWhile_ne_append {c : Char} {s : List Char} (h : c ∉ s) (t : List Char) :
    (s ++ c :: t).dropWhile (· ≠ c) = c :: t := by
  rw [List.dropWhile_append_of_pos (ne_of_mem h)]
  simp

/-- The first piece of a text ends before the first cut. -/
private theorem exists_pieces_eq (c : Char) (s : List Char) :
    ∃ more, pieces c s = s.takeWhile (· ≠ c) :: more := by
  by_cases hc : c ∈ s
  · obtain ⟨first, r, rfl, hfirst⟩ := List.eq_append_cons_of_mem hc
    exact ⟨pieces c r, by rw [Text.pieces_append hfirst, takeWhile_ne_append hfirst]⟩
  · exact ⟨[], by rw [Text.pieces_of_not_mem hc, takeWhile_ne_of_not_mem hc]⟩

/-- The path of a body is what is left after its type. -/
private theorem parts_path (body : List Char) : (parts body).2.1 = pathOf body := by
  unfold pathOf
  split
  · rename_i hcolon
    obtain ⟨word, r, rfl, hword⟩ := List.eq_append_cons_of_mem hcolon
    obtain ⟨more, hmore⟩ := exists_pieces_eq ':' r
    rw [parts, Text.pieces_append hword, hmore, dropWhile_ne_append hword, List.tail_cons]
  · rename_i hcolon
    rw [parts, Text.pieces_of_not_mem hcolon]

/-- The name is the path up to the first dot. -/
private theorem nameAndKey_name (path : List Char) :
    (nameAndKey path).1 = path.takeWhile (· ≠ '.') := by
  unfold nameAndKey
  cases hcut : Text.cutFirst? '.' path with
  | none => exact (takeWhile_ne_of_not_mem (Text.cutFirst?_eq_none.1 hcut)).symm
  | some cut =>
    obtain ⟨name, key⟩ := cut
    obtain ⟨rfl, hname⟩ := Text.cutFirst?_eq_some hcut
    exact (takeWhile_ne_append hname key).symm

/-- A body stands for a placeholder if it has a name. -/
private theorem ofBody?_cases (full : Bool) (body : List Char) :
    (nameOf body = [] ∧ ofBody? full body = none) ∨
    (nameOf body ≠ [] ∧ ∃ p, ofBody? full body = some p ∧
      p.name = String.ofList (nameOf body) ∧ p.full = full) := by
  have hname : (nameAndKey (parts body).2.1).1 = nameOf body := by
    rw [nameAndKey_name, parts_path, nameOf]
  simp only [ofBody?, hname, List.isEmpty_iff]
  by_cases hempty : nameOf body = []
  · exact .inl ⟨hempty, if_pos hempty⟩
  · exact .inr ⟨hempty, _, if_neg hempty, rfl, rfl⟩

/-- A name ends before the first point. -/
theorem dot_not_mem_name {text : String} {p : Placeholder} (h : p ∈ extract text) :
    '.' ∉ p.name.toList := by
  obtain ⟨body, -, hbody⟩ := List.mem_filterMap.1 h
  obtain ⟨-, hnone⟩ | ⟨-, q, hq, hname, -⟩ := ofBody?_cases (written body == text.toList) body
  · cases hbody.symm.trans hnone
  · cases hbody.symm.trans hq
    rw [hname, String.toList_ofList, nameOf]
    exact fun hmem => absurd (List.mem_takeWhile_imp hmem) (by decide)

/-! ### What is extracted -/

/-- From a text that is one placeholder, this is extracted, if it has a name. -/
theorem extract_written (h : IsBody body) :
    extract (String.ofList (written body)) = (ofBody? true body).toList := by
  have hsegments : segments (written body) = [.body body] := by
    have hfound := bodyAt?_written h []
    rw [List.append_nil] at hfound
    rw [segments_of_bodyAt? hfound]
    simp [segments, bodyAt?]
  rw [extract_eq_filterMap, String.toList_ofList, hsegments]
  cases hp : ofBody? true body <;> simp [Segment.body?, hp]

/-- A placeholder that is the whole text is the only one. -/
theorem extract_eq_singleton_of_full {text : String} {p : Placeholder} (h : p ∈ extract text)
    (hfull : p.full = true) : extract text = [p] := by
  rw [extract_eq_filterMap, List.mem_filterMap] at h
  obtain ⟨x, hx, hp⟩ := h
  obtain ⟨body, hbody, hone⟩ := Option.bind_eq_some_iff.1 hp
  -- Only a body has a placeholder, and a full one is the whole text.
  cases x with
  | char c => cases hbody
  | body b =>
    cases hbody
    have hwhole : written body = text.toList := by
      rw [ofBody?_eq_map, Option.map_eq_some_iff] at hone
      obtain ⟨q, -, rfl⟩ := hone
      exact beq_iff_eq.1 hfull
    have htext : text = String.ofList (written body) := by rw [hwhole, String.ofList_toList]
    rw [hwhole, beq_self_eq_true] at hone
    rw [htext, extract_written ((cut_segments _).isBody body hx), hone, Option.toList_some]

/-- The placeholder that a body stands for in a text. -/
structure TokenOf (text : String) (body : List Char) (p : Placeholder) : Prop where
  read : ofBody? p.full body = some p
  full : p.full = true ↔ p.text = text
  name : p.name = String.ofList (nameOf body)
  text : p.text = String.ofList (written body)

/-- What is kept of a list stands beside what is read from it. -/
private theorem forall₂_filterMap {α β : Type} {r : α → β → Prop} {f : α → Option β}
    {keep : α → Bool} {xs : List α}
    (h : ∀ x ∈ xs, (keep x = false ∧ f x = none) ∨ (keep x = true ∧ ∃ y, f x = some y ∧ r x y)) :
    List.Forall₂ r (xs.filter keep) (xs.filterMap f) := by
  induction xs with
  | nil => exact .nil
  | cons x xs ih =>
    rw [List.forall_mem_cons] at h
    obtain ⟨⟨hkeep, hnone⟩ | ⟨hkeep, y, hsome, hy⟩, hrest⟩ := h
    · rw [List.filter_cons_of_neg (by simp [hkeep]), List.filterMap_cons_none hnone]
      exact ih hrest
    · rw [List.filter_cons_of_pos hkeep, List.filterMap_cons_some hsome]
      exact .cons hy (ih hrest)

/-- The placeholder of a body, if it has a name. -/
private theorem tokenOf_ofBody? (text : String) (body : List Char) :
    (decide (nameOf body ≠ []) = false ∧ ofBody? (written body == text.toList) body = none) ∨
    (decide (nameOf body ≠ []) = true ∧
      ∃ p, ofBody? (written body == text.toList) body = some p ∧ TokenOf text body p) := by
  obtain ⟨hempty, hnone⟩ | ⟨hne, p, hsome, hname, hfull⟩ :=
    ofBody?_cases (written body == text.toList) body
  · exact .inl ⟨by simp [hempty], hnone⟩
  · have htext := text_of_ofBody? hsome
    refine .inr ⟨decide_eq_true hne, p, hsome, by rwa [hfull], ?_, hname, htext⟩
    rw [hfull, htext, beq_iff_eq, ← String.toList_inj, String.toList_ofList]

/-- A text is cut at its placeholders in exactly one way, and what is extracted are, in order, the
placeholders of those bodies of the cut that have a name. One that is the whole text is the only
one. -/
theorem extract_exact (text : String) :
    ∃ xs, (∀ ys, Cut text.toList ys ↔ ys = xs) ∧
      List.Forall₂ (TokenOf text) ((xs.filterMap Segment.body?).filter (nameOf · ≠ []))
        (extract text) ∧
      ∀ p ∈ extract text, p.full = true → extract text = [p] := by
  refine ⟨segments text.toList, fun ys => ⟨Cut.eq_segments, ?_⟩, ?_, fun p hp hfull => ?_⟩
  · rintro rfl
    exact cut_segments text.toList
  · rw [filterMap_body?_segments]
    exact forall₂_filterMap fun body _ => tokenOf_ofBody? text body
  · exact extract_eq_singleton_of_full hp hfull

/-- Braces that are opened twice, or not closed, or have nothing between them are no placeholders,
and one without a name is none that is extracted. -/
example : (extract "$$\x7ba\x7d$\x7bb$\x7bc:d.e\x7d$\x7b\x7d$\x7bf:\x7d\x7d$\x7bg").map
    Placeholder.text = ["$\x7ba\x7d", "$\x7bc:d.e\x7d"] := by
  decide +kernel

end SheetTemplate.Placeholder
