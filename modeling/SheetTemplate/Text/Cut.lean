/-!
# Cutting and replacing

A text is cut at the first or the last occurrence of a character, at all of them, or after a
leading word. `replaceAll` substitutes a word from left to right without overlaps. What a cut
returns always joins to the text it was given.
-/

namespace SheetTemplate.Text

/-- What stands before and after the first `c`. -/
def cutFirst? (c : Char) : List Char → Option (List Char × List Char)
  | [] => none
  | x :: r =>
    if x = c then some ([], r) else (cutFirst? c r).map fun (before, after) => (x :: before, after)

/-- What stands before and after the last `c`. -/
def cutLast? (c : Char) : List Char → Option (List Char × List Char)
  | [] => none
  | x :: r =>
    match cutLast? c r with
    | some (before, after) => some (x :: before, after)
    | none => if x = c then some ([], r) else none

/-- The pieces between the occurrences of `c`, one more than there are occurrences. -/
def pieces (c : Char) : List Char → List (List Char)
  | [] => [[]]
  | x :: r =>
    if x = c then [] :: pieces c r
    else
      match pieces c r with
      | p :: ps => (x :: p) :: ps
      | [] => [[x]]

/-- Joins pieces with `c` between them. -/
def join (c : Char) : List (List Char) → List Char
  | [] => []
  | [p] => p
  | p :: q :: ps => p ++ c :: join c (q :: ps)

/-- What follows a word at the beginning of a text. -/
def after? : List Char → List Char → Option (List Char)
  | [], s => some s
  | w :: ws, c :: r => if w = c then after? ws r else none
  | _ :: _, [] => none

/-- Replaces every occurrence of the word `old`, scanning from the left and going on after each
occurrence found. The counter says how many characters of an occurrence are still to be passed. -/
def replaceFrom (old new : List Char) : Nat → List Char → List Char
  | _, [] => []
  | passed + 1, _ :: r => replaceFrom old new passed r
  | 0, x :: r =>
    if old.isPrefixOf (x :: r) then new ++ replaceFrom old new (old.length - 1) r
    else x :: replaceFrom old new 0 r

/-- Replaces every occurrence of the non-empty word `old` by `new`. -/
def replaceAll (old new : List Char) (text : List Char) : List Char :=
  replaceFrom old new 0 text

/-- While characters of an occurrence are left to skip, nothing is written. -/
private theorem replaceFrom_append (old new u r : List Char) :
    replaceFrom old new u.length (u ++ r) = replaceFrom old new 0 r := by
  induction u with
  | nil => rfl
  | cons c u ih => exact ih

/-- A word that the text begins with is replaced. -/
theorem replaceAll_append_word {word : List Char} (hword : word ≠ []) (new r : List Char) :
    replaceAll word new (word ++ r) = new ++ replaceAll word new r := by
  obtain ⟨c, word', rfl⟩ := List.exists_cons_of_ne_nil hword
  have hprefix : (c :: word').isPrefixOf (c :: (word' ++ r)) = true :=
    List.isPrefixOf_iff_prefix.2 (List.prefix_append (c :: word') r)
  rw [replaceAll, List.cons_append, replaceFrom, if_pos hprefix, List.length_cons,
    Nat.add_sub_cancel, replaceFrom_append, replaceAll]

/-- A character where the word does not begin is kept. -/
theorem replaceAll_cons_of_not_prefix {word r : List Char} {c : Char}
    (h : ¬word.isPrefixOf (c :: r) = true) (new : List Char) :
    replaceAll word new (c :: r) = c :: replaceAll word new r := by
  rw [replaceAll, replaceFrom, if_neg h, replaceAll]

/-- What stands behind the word is left. -/
@[simp]
theorem after?_append (word rest : List Char) : after? word (word ++ rest) = some rest := by
  induction word with
  | nil => rfl
  | cons w ws ih => simp [after?, ih]

/-- The word stands in front of what is left. -/
theorem after?_eq_some {word s rest : List Char} (h : after? word s = some rest) :
    s = word ++ rest := by
  induction word generalizing s with
  | nil => simpa [after?] using h
  | cons w ws ih =>
    cases s with
    | nil => simp [after?] at h
    | cons c r =>
      by_cases hw : w = c
      · simp only [after?, hw, ↓reduceIte] at h
        simp [hw, ih h]
      · simp [after?, hw] at h

/-- Before the first occurrence the character does not stand. -/
theorem cutFirst?_eq_some {c : Char} {s before after : List Char}
    (h : cutFirst? c s = some (before, after)) : s = before ++ c :: after ∧ c ∉ before := by
  -- Either the text begins with the character, or it is cut further on.
  induction s generalizing before after with
  | nil => simp [cutFirst?] at h
  | cons x r ih =>
    by_cases hx : x = c
    · simp only [cutFirst?, hx, ↓reduceIte, Option.some.injEq, Prod.mk.injEq] at h
      obtain ⟨rfl, rfl⟩ := h
      simp [hx]
    · simp only [cutFirst?, hx, ↓reduceIte, Option.map_eq_some_iff, Prod.mk.injEq] at h
      obtain ⟨⟨b, a⟩, hr, rfl, rfl⟩ := h
      obtain ⟨rfl, hb⟩ := ih hr
      simp [hb, Ne.symm hx]

/-- A text without the character is not cut. -/
theorem cutFirst?_eq_none {c : Char} {s : List Char} : cutFirst? c s = none ↔ c ∉ s := by
  induction s with
  | nil => simp [cutFirst?]
  | cons x r ih =>
    by_cases hx : x = c
    · simp [cutFirst?, hx]
    · simp [cutFirst?, hx, ih, Ne.symm hx]

/-- Nor is it at its last occurrence. -/
theorem cutLast?_eq_none {c : Char} {s : List Char} : cutLast? c s = none ↔ c ∉ s := by
  induction s with
  | nil => simp [cutLast?]
  | cons x r ih =>
    rcases hr : cutLast? c r with _ | ⟨b, a⟩
    · by_cases hx : x = c
      · simp [cutLast?, hr, hx]
      · simp [cutLast?, hr, hx, Ne.symm hx, ih.1 hr]
    · have hc : c ∈ r := by
        refine Classical.byContradiction fun hn => ?_
        simp [ih.2 hn] at hr
      simp [cutLast?, hr, hc]

/-- Behind the last occurrence the character does not stand. -/
theorem cutLast?_eq_some {c : Char} {s before after : List Char}
    (h : cutLast? c s = some (before, after)) : s = before ++ c :: after ∧ c ∉ after := by
  induction s generalizing before after with
  | nil => simp [cutLast?] at h
  | cons x r ih =>
    -- The cut is here only if there is none further on.
    rcases hr : cutLast? c r with _ | ⟨b, a⟩
    · by_cases hx : x = c
      · simp only [cutLast?, hr, hx, ↓reduceIte, Option.some.injEq, Prod.mk.injEq] at h
        obtain ⟨rfl, rfl⟩ := h
        exact ⟨by simp [hx], cutLast?_eq_none.1 hr⟩
      · simp [cutLast?, hr, hx] at h
    · simp only [cutLast?, hr, Option.some.injEq, Prod.mk.injEq] at h
      obtain ⟨rfl, rfl⟩ := h
      obtain ⟨rfl, ha⟩ := ih hr
      exact ⟨rfl, ha⟩

/-- There is always a piece. -/
theorem pieces_ne_nil (c : Char) (s : List Char) : pieces c s ≠ [] := by
  induction s with
  | nil => simp [pieces]
  | cons x r ih =>
    unfold pieces
    split
    · simp
    · split <;> simp

/-- Cutting at a character loses nothing. -/
@[simp]
theorem join_pieces (c : Char) (s : List Char) : join c (pieces c s) = s := by
  induction s with
  | nil => rfl
  | cons x r ih =>
    -- The separator comes back between two pieces.
    unfold pieces
    split
    · rename_i hx
      rcases hp : pieces c r with _ | ⟨p, ps⟩
      · exact absurd hp (pieces_ne_nil c r)
      · rw [hp] at ih
        simp [join, ih, hx]
    · rcases hp : pieces c r with _ | ⟨p, _ | ⟨q, ps⟩⟩
      · exact absurd hp (pieces_ne_nil c r)
      · rw [hp] at ih
        simpa [join] using ih
      · rw [hp] at ih
        simpa [join] using ih

end SheetTemplate.Text
