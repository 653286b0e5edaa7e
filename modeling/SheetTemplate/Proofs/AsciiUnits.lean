import SheetTemplate.Proofs.Utf8RoundTrip

/-!
# Bytes of ASCII among others

A byte of ASCII is a unit of its own wherever it stands, also between bytes that are no UTF-8: no
character and no malformed run reaches across it. Bytes can be read apart at each of them, and the
characters of ASCII that are read are exactly those of the bytes.

## Key results

- `charAt?_eq_some_iff`: bytes begin with a character exactly if its bytes are in front
- `glyphs_append_ascii`: what stands before a byte of ASCII and what stands behind it
- `filter_lossy_glyphs`: the characters of a class within ASCII
-/

namespace SheetTemplate.Text.Utf8

/-! ### One unit after another -/

/-- Bytes begin with a character if its own bytes begin them. -/
theorem charAt?_eq_some_iff {bytes : List UInt8} {c : Char} :
    charAt? bytes = some c ↔ String.utf8EncodeChar c <+: bytes := by
  constructor
  · intro h
    obtain ⟨rest, hrest⟩ := ByteArray.exists_of_utf8DecodeChar?_eq_some h
    have hlist := congrArg (fun b => b.data.toList) hrest
    have hfront : bytes.take 4 = String.utf8EncodeChar c ++ rest.data.toList := by
      simpa using hlist
    exact (hfront ▸ List.prefix_append ..).trans (List.take_prefix 4 bytes)
  · rintro ⟨rest, rfl⟩
    exact charAt?_encodeChar c rest

/-- What has been read already does not matter for what is read next. -/
private theorem decodeOnto_eq (done : Array Glyph) (passed : Nat) (bytes : List UInt8) :
    (decodeOnto done passed bytes).toList = done.toList ++ glyphs (bytes.drop passed) := by
  induction bytes generalizing done passed with
  | nil => simp [glyphs, decodeOnto]
  | cons b r ih =>
    cases passed with
    | succ passed => exact ih done passed
    | zero =>
      rw [List.drop_zero, glyphs, decodeOnto, decodeOnto]
      dsimp only
      rw [ih, ih]
      simp

/-- No bytes are no glyphs. -/
@[simp]
theorem glyphs_nil : glyphs [] = [] := rfl

/-- The first unit, and those behind the bytes that it takes. -/
theorem glyphs_cons (b : UInt8) (r : List UInt8) :
    glyphs (b :: r) = (next (b :: r)).1 :: glyphs (r.drop ((next (b :: r)).2 - 1)) := by
  rw [glyphs, decodeOnto]
  exact decodeOnto_eq ..

/-- A byte of ASCII is the next glyph, and takes one byte. -/
theorem next_ascii {b : UInt8} (hb : b < 0x80) (r : List UInt8) :
    next (b :: r) = (.char (Char.ofNat b.toNat), 1) := by
  rw [next, if_pos hb]

/-- So the glyphs begin with its character. -/
theorem glyphs_ascii {b : UInt8} (hb : b < 0x80) (r : List UInt8) :
    glyphs (b :: r) = .char (Char.ofNat b.toNat) :: glyphs r := by
  rw [glyphs_cons, next_ascii hb]
  rfl

/-! ### In front of a byte of ASCII -/

variable {b : UInt8}

/-- A character does not reach across a byte of ASCII. -/
private theorem charAt?_append_ascii (hb : b < 0x80) {x : List UInt8} (hx : x ≠ [])
    (y : List UInt8) : charAt? (x ++ b :: y) = charAt? x := by
  refine Option.ext fun c => ?_
  rw [charAt?_eq_some_iff, charAt?_eq_some_iff]
  refine ⟨fun h => ?_, fun h => h.trans (List.prefix_append ..)⟩
  by_cases hlength : (String.utf8EncodeChar c).length ≤ x.length
  · exact List.prefix_of_prefix_length_le h (List.prefix_append ..) hlength
  · -- Otherwise the byte of ASCII would be a later byte of the character.
    have hreach : x ++ [b] <+: String.utf8EncodeChar c :=
      List.prefix_of_prefix_length_le ⟨y, by simp⟩ h (by
        rw [List.length_append, List.length_singleton]
        omega)
    have hpos := List.length_pos_of_ne_nil hx
    obtain ⟨_, -, -, hone⟩ | ⟨-, -, hhigh⟩ := encodeChar_cases c
    · rw [hone, List.length_singleton] at hlength
      omega
    · exact absurd hb (hhigh b (hreach.subset (by simp)))

/-- It continues no character. -/
private theorem isContinuation_ascii (hb : b < 0x80) : isContinuation b = false := by
  simp [isContinuation, UInt8.not_le.2 hb]

/-- It is no second byte of a character of three. -/
private theorem isSecondOfThree_ascii (hb : b < 0x80) (lead : UInt8) :
    isSecondOfThree lead b = false := by
  have hlow : ¬0xA0 ≤ b := by
    simp only [UInt8.le_iff_toNat_le, UInt8.lt_iff_toNat_lt] at hb ⊢
    exact Nat.not_le.2 (Nat.lt_trans hb (by decide))
  simp [isSecondOfThree, isContinuation_ascii hb, UInt8.not_le.2 hb, hlow]

/-- It is no second byte of a character of four. -/
private theorem isSecondOfFour_ascii (hb : b < 0x80) (lead : UInt8) :
    isSecondOfFour lead b = false := by
  have hlow : ¬0x90 ≤ b := by
    simp only [UInt8.le_iff_toNat_le, UInt8.lt_iff_toNat_lt] at hb ⊢
    exact Nat.not_le.2 (Nat.lt_trans hb (by decide))
  simp [isSecondOfFour, isContinuation_ascii hb, UInt8.not_le.2 hb, hlow]

/-- Nor does a malformed run. -/
private theorem malformedLength_append_ascii (hb : b < 0x80) {x : List UInt8} (hx : x ≠ [])
    (y : List UInt8) : malformedLength (x ++ b :: y) = malformedLength x := by
  obtain _ | ⟨lead, _ | ⟨second, _ | ⟨third, r⟩⟩⟩ := x
  · exact absurd rfl hx
  · cases y <;> simp [malformedLength, isSecondOfThree_ascii hb, isSecondOfFour_ascii hb]
  · simp only [List.cons_append, List.nil_append, malformedLength, isContinuation_ascii hb]
    cases isSecondOfThree lead second <;> cases isSecondOfFour lead second <;> rfl
  · rfl

/-- A malformed run takes no more bytes than there are. -/
private theorem malformedLength_le {x : List UInt8} (hx : x ≠ []) :
    malformedLength x ≤ x.length := by
  unfold malformedLength
  split
  · simp only [List.length_cons]
    split <;> (try split) <;> (try split) <;> omega
  · simp only [List.length_cons, List.length_nil]
    split <;> omega
  · exact List.length_pos_of_ne_nil hx

/-- What is read next does not change when a byte of ASCII follows. -/
private theorem next_append_ascii (hb : b < 0x80) {x : List UInt8} (hx : x ≠ [])
    (y : List UInt8) : next (x ++ b :: y) = next x := by
  obtain ⟨a, r, rfl⟩ := List.exists_cons_of_ne_nil hx
  by_cases ha : a < 0x80
  · rw [List.cons_append, next_ascii ha, next_ascii ha]
  · have hchar := charAt?_append_ascii hb hx y
    have hrun := malformedLength_append_ascii hb hx y
    have htake : (a :: r ++ b :: y).take (malformedLength (a :: r)) =
        (a :: r).take (malformedLength (a :: r)) :=
      List.take_append_of_le_length (malformedLength_le hx)
    rw [List.cons_append] at hchar hrun htake ⊢
    rw [next, next, if_neg ha, if_neg ha, hchar, hrun, htake]

/-- A step takes no more bytes than there are. -/
private theorem snd_next_le {x : List UInt8} (hx : x ≠ []) : (next x).2 ≤ x.length := by
  obtain ⟨a, r, rfl⟩ := List.exists_cons_of_ne_nil hx
  unfold next
  dsimp only
  split
  · exact List.length_pos_of_ne_nil hx
  · split
    · rename_i c hchar
      rw [← String.length_utf8EncodeChar]
      exact (charAt?_eq_some_iff.1 hchar).length_le
    · exact malformedLength_le hx

/-- A byte of ASCII is read as its character, and what stands before it and behind it is read as if
it stood alone. -/
theorem glyphs_append_ascii (hb : b < 0x80) (x y : List UInt8) :
    glyphs (x ++ b :: y) = glyphs x ++ .char (Char.ofNat b.toNat) :: glyphs y := by
  -- On the number of bytes before: each step takes at least one of them and none of what follows.
  induction hn : x.length using Nat.strongRecOn generalizing x with
  | _ n ih =>
    cases x with
    | nil => exact glyphs_ascii hb y
    | cons a r =>
      have hnext := next_append_ascii hb (List.cons_ne_nil a r) y
      have hsize := snd_next_le (List.cons_ne_nil a r)
      rw [List.length_cons] at hsize hn
      rw [List.cons_append] at hnext ⊢
      rw [glyphs_cons, hnext, List.drop_append_of_le_length (by omega),
        ih _ (by rw [List.length_drop]; omega) _ rfl, glyphs_cons a r, List.cons_append]

/-! ### The characters of ASCII -/

/-- The characters of two parts are those of both. -/
@[simp]
theorem lossy_append (xs ys : List Glyph) : lossy (xs ++ ys) = lossy xs ++ lossy ys :=
  List.map_append

/-- The character of a byte. -/
def ofByte (b : UInt8) : Char := Char.ofNat b.toNat

/-- A character of one byte has the number of the byte. -/
theorem toNat_ofByte (b : UInt8) : (ofByte b).toNat = b.toNat := by
  have hvalid : b.toNat.isValidChar := .inl (Nat.lt_trans b.toNat_lt (by decide))
  rw [ofByte, Char.ofNat, dif_pos hvalid]
  rfl

/-- A character below 128 is that of a byte of ASCII. -/
theorem ofByte_lt {b : UInt8} (h : (ofByte b).toNat < 128) : b < 0x80 :=
  UInt8.lt_iff_toNat_lt.2 (toNat_ofByte b ▸ h)

/-- Such a character is written as one byte. -/
theorem encodeChar_ascii {c : Char} (h : c.toNat < 128) :
    ∃ b, ofByte b = c ∧ String.utf8EncodeChar c = [b] := by
  obtain ⟨b, -, hsame, hone⟩ | ⟨hhigh, -⟩ := encodeChar_cases c
  · exact ⟨b, hsame, hone⟩
  · omega

/-- Bytes outside ASCII give no character of ASCII. -/
private theorem not_ascii_of_mem_glyphs {x : List UInt8} (hx : ∀ b ∈ x, ¬b < 0x80) {c : Char}
    (hc : .char c ∈ glyphs x) : 128 ≤ c.toNat := by
  induction hn : x.length using Nat.strongRecOn generalizing x with
  | _ n ih =>
    cases x with
    | nil => cases hc
    | cons a r =>
      rw [List.length_cons] at hn
      rw [glyphs_cons, List.mem_cons] at hc
      obtain hc | hc := hc
      · rw [next, if_neg (hx a List.mem_cons_self)] at hc
        split at hc
        · rename_i c' hchar
          obtain rfl : c = c' := Glyph.char.inj hc
          obtain ⟨b, hb, -, hone⟩ | ⟨hhigh, -⟩ := encodeChar_cases c
          · -- A character of ASCII would be the first byte.
            have hfront := charAt?_eq_some_iff.1 hchar
            rw [hone, List.cons_prefix_cons] at hfront
            exact absurd (hfront.1 ▸ hb) (hx a List.mem_cons_self)
          · exact hhigh
        · cases hc
      · exact ih _ (by rw [List.length_drop]; omega)
          (fun b hb => hx b (List.mem_cons_of_mem _ (List.mem_of_mem_drop hb))) hc rfl

variable {keep : Char → Bool}

/-- Bytes that are none of ASCII give no character of ASCII. -/
private theorem filter_lossy_eq_nil (hkeep : ∀ c, keep c = true → c.toNat < 128) {x : List UInt8}
    (hx : ∀ b ∈ x, ¬b < 0x80) : (lossy (glyphs x)).filter keep = [] := by
  rw [List.filter_eq_nil_iff]
  intro c hc hkept
  have hascii := hkeep c hkept
  rw [lossy, List.mem_map] at hc
  obtain ⟨glyph, hglyph, rfl⟩ := hc
  cases glyph with
  | char c => exact absurd hascii (Nat.not_lt.2 (not_ascii_of_mem_glyphs hx hglyph))
  | malformed bytes => exact absurd hascii (show ¬( '\uFFFD'.toNat < 128) by decide)

/-- Of a class of characters within ASCII, those are read that the bytes are. -/
theorem filter_lossy_glyphs (hkeep : ∀ c, keep c = true → c.toNat < 128) (bytes : List UInt8) :
    (lossy (glyphs bytes)).filter keep = (bytes.map ofByte).filter keep := by
  -- Along the bytes, with those outside ASCII that were met since the last one of it.
  have hbehind : ∀ x : List UInt8, (∀ b ∈ x, ¬b < 0x80) →
      (lossy (glyphs (x ++ bytes))).filter keep = (bytes.map ofByte).filter keep := by
    induction bytes with
    | nil =>
      intro x hx
      rw [List.append_nil, filter_lossy_eq_nil hkeep hx]
      rfl
    | cons b r ih =>
      intro x hx
      by_cases hb : b < 0x80
      · have hrest := ih [] (by simp)
        rw [List.nil_append] at hrest
        rw [glyphs_append_ascii hb, lossy_append, List.filter_append, filter_lossy_eq_nil hkeep hx,
          List.nil_append, List.map_cons, List.filter_cons, ← hrest, ← List.filter_cons]
        rfl
      · have hdrop : keep (ofByte b) ≠ true := fun hkept =>
          hb (UInt8.lt_iff_toNat_lt.2 (toNat_ofByte b ▸ hkeep _ hkept))
        have hx' : ∀ a ∈ x ++ [b], ¬a < 0x80 := by
          rw [List.forall_mem_append, List.forall_mem_singleton]
          exact ⟨hx, hb⟩
        rw [List.append_cons, ih (x ++ [b]) hx', List.map_cons, List.filter_cons_of_neg hdrop]
  exact hbehind [] (by simp)

end SheetTemplate.Text.Utf8
