import Mathlib.Data.List.Infix
import SheetTemplate.Text.CodeEscape

/-!
# Which texts survive their escapes

`encode` escapes the underscore of what looks like an escape in the text itself. It does not look at
what it writes: an underscore, `x` and four digits in front of a control character are followed,
once this is escaped, by an underscore, and `decode` takes the seven characters for an escape. Such
a text is torn. Every other text is read back.

## Key results

- `decode_encode_cons`: what is not torn at its front is read back from there on
- `decode_encode_ne`: what is torn at its front is not
- `decode_encode_iff`: exactly the texts that are torn nowhere are read back
-/

namespace SheetTemplate.Text

/-! ### Digits -/

/-- Whatever denotes a number consists of digits. -/
theorem isSome_hexValue?_of_hexNumber? {ds : List Char} {n : Nat} (h : hexNumber? ds = some n) :
    ∀ c ∈ ds, (hexValue? c).isSome := by
  rw [hexNumber?] at h
  generalize 0 = start at h
  induction ds generalizing start with
  | nil => simp
  | cons c ds ih =>
    cases hc : hexValue? c with
    | none => simp [hc] at h
    | some v =>
      rw [List.foldlM_cons, hc] at h
      exact List.forall_mem_cons.2 ⟨by simp [hc], ih _ h⟩

/-- No digit is an underscore. -/
theorem ne_underscore_of_hexValue? {c : Char} (h : (hexValue? c).isSome) : c ≠ '_' := by
  rintro rfl
  revert h
  decide

/-- Digits begin at 48. -/
theorem toNat_ge_of_hexValue? {c : Char} (h : (hexValue? c).isSome) : 48 ≤ c.toNat := by
  simp only [hexValue?, Char.le_def, UInt32.le_iff_toNat_le] at h
  split at h
  · rename_i hc; exact hc.1
  · split at h
    · rename_i hc; exact le_trans (by decide) hc.1
    · split at h
      · rename_i hc; exact le_trans (by decide) hc.1
      · simp at h

/-- Four digits written of a number are read as the number. -/
theorem hexNumber?_hexDigits {n : Nat} (h : n < 65536) :
    hexNumber? [hexDigit (n / 4096), hexDigit (n / 256 % 16), hexDigit (n / 16 % 16),
      hexDigit (n % 16)] = some n := by
  have hfirst : n / 4096 < 16 := by omega
  have hmod : ∀ m, m % 16 < 16 := fun m => Nat.mod_lt m (by decide)
  simp [hexNumber?, hfirst, hmod]
  omega

namespace CodeEscape

/-- Whether a text begins with an underscore, `x`, the code point of a character in four digits, and
a control character. -/
def isTorn : List Char → Bool
  | '_' :: 'x' :: a :: b :: c :: d :: h :: _ =>
    ((hexNumber? [a, b, c, d]).bind char?).isSome && isHidden h
  | _ => false

/-! ### Reading -/

/-- The number of a character is that of a character. -/
theorem char?_toNat (c : Char) : char? c.toNat = some c := dif_pos c.valid

/-- Only an underscore begins an escape. -/
theorem decode_cons_of_ne {c : Char} (h : c ≠ '_') (r : List Char) :
    decode (c :: r) = c :: decode r := by
  conv_lhs => unfold decode
  split <;> simp_all

/-- An underscore that begins no escape is read as itself. -/
theorem decode_underscore {r : List Char}
    (h : ∀ a b c d t, r = 'x' :: a :: b :: c :: d :: '_' :: t →
      (hexNumber? [a, b, c, d]).bind char? = none) :
    decode ('_' :: r) = '_' :: decode r := by
  conv_lhs => unfold decode
  split
  · rename_i heq
    cases heq
    rw [h _ _ _ _ _ rfl]
  · rename_i heq
    cases heq
    rfl
  · simp_all

/-- The escape of a character is read as the character. -/
theorem decode_escape_append {c : Char} (h : c.toNat < 65536) (r : List Char) :
    decode (escape c.toNat ++ r) = c :: decode r := by
  conv_lhs => unfold decode
  simp [escape, hexNumber?_hexDigits h, char?_toNat]

/-! ### Writing -/

/-- Characters from 32 on are not hidden. -/
theorem not_isHidden_of_le {c : Char} (h : 32 ≤ c.toNat) : isHidden c = false := by
  simp [isHidden, Nat.not_lt.2 h]

/-- Hidden characters are those below 32. -/
theorem toNat_lt_of_isHidden {c : Char} (h : isHidden c = true) : c.toNat < 32 := by
  by_contra hle
  rw [not_isHidden_of_le (by omega)] at h
  cases h

/-- Only an underscore looks like an escape. -/
theorem isEscape_cons_of_ne {c : Char} (h : c ≠ '_') (r : List Char) :
    isEscape (c :: r) = false := by
  unfold isEscape
  split <;> simp_all

/-- A character that is neither hidden nor the beginning of an escape is kept. -/
theorem encode_cons_of_plain {c : Char} {r : List Char} (hescape : isEscape (c :: r) = false)
    (hc : isHidden c = false) : encode (c :: r) = c :: encode r := by
  simp [encode, hescape, hc]

/-- A hidden character is written as its escape. -/
theorem encode_cons_of_isHidden {c : Char} (h : isHidden c = true) (r : List Char) :
    encode (c :: r) = escape c.toNat ++ encode r := by
  have hc : c ≠ '_' := by rintro rfl; revert h; decide
  simp [encode, isEscape_cons_of_ne hc, h]

/-- A digit, and any other visible character but the underscore, is written as it is. -/
theorem encode_cons_of_ne {c : Char} (h : c ≠ '_') (hc : 32 ≤ c.toNat) (r : List Char) :
    encode (c :: r) = c :: encode r :=
  encode_cons_of_plain (isEscape_cons_of_ne h r) (not_isHidden_of_le hc)

/-- What is written begins with the first character, or with the underscore of its escape. -/
theorem encode_eq_cons {r t : List Char} {c : Char} (h : encode r = c :: t) :
    (∃ r', r = c :: r' ∧ t = encode r') ∨
    (c = '_' ∧ ∃ c' r', r = c' :: r' ∧ (c' = '_' ∨ isHidden c' = true)) := by
  -- The text begins with what looks like an escape, with a hidden character, or with one that is
  -- kept.
  cases r with
  | nil => cases h
  | cons c' r' =>
    rw [encode] at h
    split at h
    · rename_i hescape
      refine .inr ⟨(List.cons.inj h).1.symm, c', r', rfl, .inl ?_⟩
      by_contra hc
      rw [isEscape_cons_of_ne hc] at hescape
      cases hescape
    · split at h
      · rename_i hhidden
        exact .inr ⟨(List.cons.inj h).1.symm, c', r', rfl, .inr hhidden⟩
      · obtain ⟨rfl, rfl⟩ := List.cons.inj h
        exact .inl ⟨r', rfl, rfl⟩

/-- A character other than the underscore at the front of what is written is one of the text. -/
theorem eq_cons_of_encode {r t : List Char} {c : Char} (h : encode r = c :: t) (hc : c ≠ '_') :
    ∃ r', r = c :: r' ∧ t = encode r' :=
  (encode_eq_cons h).resolve_right fun hescape => hc hescape.1

/-- Where what is written reads like the rest of an escape, the text does so as well, but for the
last underscore, which may begin the escape of a hidden character. -/
theorem eq_of_encode_eq {r t : List Char} {a b c d : Char} {n : Nat}
    (h : encode r = 'x' :: a :: b :: c :: d :: '_' :: t)
    (hdigits : hexNumber? [a, b, c, d] = some n) :
    ∃ last r', r = 'x' :: a :: b :: c :: d :: last :: r' ∧
      (last = '_' ∨ isHidden last = true) := by
  have hne : ∀ x ∈ [a, b, c, d], x ≠ '_' := fun x hx =>
    ne_underscore_of_hexValue? (isSome_hexValue?_of_hexNumber? hdigits x hx)
  obtain ⟨r₁, rfl, h₁⟩ := eq_cons_of_encode h (by decide)
  obtain ⟨r₂, rfl, h₂⟩ := eq_cons_of_encode h₁.symm (hne a (by simp))
  obtain ⟨r₃, rfl, h₃⟩ := eq_cons_of_encode h₂.symm (hne b (by simp))
  obtain ⟨r₄, rfl, h₄⟩ := eq_cons_of_encode h₃.symm (hne c (by simp))
  obtain ⟨r₅, rfl, h₅⟩ := eq_cons_of_encode h₄.symm (hne d (by simp))
  obtain ⟨r₆, rfl, -⟩ | ⟨-, last, r₆, rfl, hlast⟩ := encode_eq_cons h₅.symm
  · exact ⟨_, r₆, rfl, .inl rfl⟩
  · exact ⟨last, r₆, rfl, hlast⟩

/-! ### Reading what was written -/

/-- A text that is not torn at its front is read back from there on. -/
theorem decode_encode_cons {c : Char} {r : List Char} (h : isTorn (c :: r) = false) :
    decode (encode (c :: r)) = c :: decode (encode r) := by
  -- The three cases of writing; in the last one an underscore must not begin an escape with what
  -- follows.
  rcases Bool.eq_false_or_eq_true (isEscape (c :: r)) with hescape | hescape
  · have hc : c = '_' := by
      by_contra hc
      rw [isEscape_cons_of_ne hc] at hescape
      cases hescape
    subst hc
    rw [encode, if_pos hescape, decode_escape_append (by decide)]
  rcases Bool.eq_false_or_eq_true (isHidden c) with hhidden | hhidden
  · rw [encode_cons_of_isHidden hhidden,
      decode_escape_append (lt_trans (toNat_lt_of_isHidden hhidden) (by decide))]
  rw [encode_cons_of_plain hescape hhidden]
  by_cases hc : c = '_'
  · subst hc
    refine decode_underscore fun a b c d t htext => ?_
    by_contra hchar
    obtain ⟨ch, hchar⟩ := Option.ne_none_iff_exists'.1 hchar
    obtain ⟨n, hdigits, -⟩ := Option.bind_eq_some_iff.1 hchar
    obtain ⟨last, r', rfl, rfl | hlast⟩ := eq_of_encode_eq htext hdigits
    · simp [isEscape, hdigits] at hescape
    · simp [isTorn, hchar, hlast] at h
  · exact decode_cons_of_ne hc _

/-- The characters of a text that is torn at its front. -/
theorem eq_of_isTorn {s : List Char} (h : isTorn s = true) :
    ∃ a b c d last r ch, s = '_' :: 'x' :: a :: b :: c :: d :: last :: r ∧
      (hexNumber? [a, b, c, d]).bind char? = some ch ∧ isHidden last = true := by
  unfold isTorn at h
  split at h
  · rw [Bool.and_eq_true, Option.isSome_iff_exists] at h
    obtain ⟨⟨ch, hch⟩, hlast⟩ := h
    exact ⟨_, _, _, _, _, _, ch, rfl, hch, hlast⟩
  · cases h

/-- A text that is torn at its front is read as a character in place of its first six, and the
digits of the escape behind them. -/
theorem decode_encode_of_torn {a b c d last ch : Char} {r : List Char}
    (hch : (hexNumber? [a, b, c, d]).bind char? = some ch) (hlast : isHidden last = true) :
    decode (encode ('_' :: 'x' :: a :: b :: c :: d :: last :: r)) =
      ch :: decode ((escape last.toNat).tail ++ encode r) := by
  obtain ⟨n, hdigits, -⟩ := Option.bind_eq_some_iff.1 hch
  have hvalue := isSome_hexValue?_of_hexNumber? hdigits
  -- The digits are kept, and the escape of the hidden character is added behind them.
  have hplain : ∀ x ∈ [a, b, c, d], ∀ t, encode (x :: t) = x :: encode t := fun x hx t =>
    encode_cons_of_ne (ne_underscore_of_hexValue? (hvalue x hx))
      (le_trans (by decide) (toNat_ge_of_hexValue? (hvalue x hx))) t
  have hescape : isEscape ('_' :: 'x' :: a :: b :: c :: d :: last :: r) = false := by
    have : last ≠ '_' := by rintro rfl; revert hlast; decide
    simp [isEscape, this]
  rw [encode_cons_of_plain hescape (by decide), encode_cons_of_ne (by decide) (by decide),
    hplain a (by simp), hplain b (by simp), hplain c (by simp), hplain d (by simp),
    encode_cons_of_isHidden hlast, escape, List.cons_append, decode, hch]
  rfl

/-- A text that is torn at its front is not read back. -/
theorem decode_encode_ne {s : List Char} (h : isTorn s = true) : decode (encode s) ≠ s := by
  obtain ⟨a, b, c, d, last, r, ch, rfl, hch, hlast⟩ := eq_of_isTorn h
  rw [decode_encode_of_torn hch hlast]
  intro heq
  obtain ⟨rfl, heq⟩ := List.cons.inj heq
  -- were it read back, the digits of the text would be those of the control character: its code
  -- point would be that of the underscore
  have hlt := toNat_lt_of_isHidden hlast
  have hdigit : ∀ {m}, m < 16 → hexDigit m ≠ '_' := fun hm =>
    ne_underscore_of_hexValue? (by simp [hm])
  have hmod : ∀ m, m % 16 < 16 := fun m => Nat.mod_lt m (by decide)
  simp only [escape, List.tail_cons, List.cons_append, List.nil_append] at heq
  rw [decode_cons_of_ne (by decide), decode_cons_of_ne (hdigit (by omega)),
    decode_cons_of_ne (hdigit (hmod _)), decode_cons_of_ne (hdigit (hmod _)),
    decode_cons_of_ne (hdigit (hmod _))] at heq
  simp only [List.cons.injEq, true_and] at heq
  obtain ⟨rfl, rfl, rfl, rfl, -⟩ := heq
  rw [hexNumber?_hexDigits (by omega), Option.bind_some, char?_toNat] at hch
  obtain rfl := Option.some_inj.1 hch
  revert hlast
  decide

/-- Exactly the texts that are torn nowhere are read back. -/
theorem decode_encode_iff (s : List Char) :
    decode (encode s) = s ↔ ∀ t, t <:+ s → isTorn t = false := by
  -- From the end of the text: what is torn anywhere is torn at the front of some end.
  induction s with
  | nil => simp [encode, decode, isTorn]
  | cons c r ih =>
    have hsuffix : (∀ t, t <:+ c :: r → isTorn t = false) ↔
        isTorn (c :: r) = false ∧ ∀ t, t <:+ r → isTorn t = false := by
      simp [List.suffix_cons_iff]
    rw [hsuffix]
    rcases Bool.eq_false_or_eq_true (isTorn (c :: r)) with htorn | htorn
    · simp [htorn, decode_encode_ne htorn]
    · rw [decode_encode_cons htorn, List.cons_inj_right, ih]
      simp [htorn]

/-- A literal escape of a letter in front of a control character. -/
theorem torn_text_read_otherwise :
    ¬∀ s : List Char, decode (encode s) = s := by
  intro h
  have := h ("_x0041".toList ++ [Char.ofNat 1])
  revert this
  decide

end CodeEscape

end SheetTemplate.Text
