import Mathlib.Data.List.Basic
import SheetTemplate.Text.Utf8

/-!
# Texts as bytes and back

The bytes of a text decode to its characters and to nothing else. Every character is one unit:
its first byte tells how many bytes belong to it, and the decoder passes over the others.

## Key results

- `glyphs_encode`: characters are read back from their bytes
- `glyphs_toUTF8`: the same for a string
-/

namespace SheetTemplate.Text.Utf8

/-! ### Byte arrays as lists -/

/-- The loop adds the bytes that are left to those it has. -/
private theorem loop_eq (bytes : ByteArray) (i : Nat) (done : List UInt8) :
    ByteArray.toList.loop bytes i done = done.reverse ++ bytes.data.toList.drop i := by
  fun_induction ByteArray.toList.loop bytes i done with
  | case1 i done hi ih =>
    have hi' : i < bytes.data.toList.length := by simpa using hi
    rw [ih, List.reverse_cons, List.append_assoc, List.drop_eq_getElem_cons hi']
    congr 2
    simp [ByteArray.get!, hi]
  | case2 i done hi =>
    rw [List.drop_of_length_le (by simpa using hi), List.append_nil]

/-- Bytes made into an array are those of the array. -/
theorem toList_toByteArray (bytes : List UInt8) : bytes.toByteArray.toList = bytes := by
  rw [ByteArray.toList, loop_eq]
  simp

/-! ### Characters -/

/-- Bytes that belong to a character before are passed over. -/
private theorem decodeOnto_append (done : Array Glyph) (passed rest : List UInt8) :
    decodeOnto done passed.length (passed ++ rest) = decodeOnto done 0 rest := by
  induction passed with
  | nil => rfl
  | cons b r ih => exact ih

/-- The bytes of a character begin with the character. -/
theorem charAt?_encodeChar (c : Char) (rest : List UInt8) :
    charAt? (String.utf8EncodeChar c ++ rest) = some c := by
  have hsize : (String.utf8EncodeChar c).length ≤ 4 := by
    rw [String.length_utf8EncodeChar]
    exact c.utf8Size_le_four
  unfold charAt?
  rw [List.take_append, List.take_of_length_le hsize, List.toByteArray_append]
  exact ByteArray.utf8DecodeChar?_utf8EncodeChar_append

/-- A byte with the highest bit stays one whatever is added to it. -/
private theorem not_or_lt (a : UInt8) {b : UInt8} (h : 0x80 ≤ b) : ¬(a ||| b) < 0x80 :=
  UInt8.not_lt.2 (UInt8.le_iff_toNat_le.2 (Nat.le_trans (UInt8.le_iff_toNat_le.1 h) (by
    rw [UInt8.toNat_or]
    exact Nat.right_le_or)))

/-- A character of ASCII is one byte, and no other one has bytes of ASCII. -/
theorem encodeChar_cases (c : Char) :
    (∃ b : UInt8, b < 0x80 ∧ Char.ofNat b.toNat = c ∧ String.utf8EncodeChar c = [b]) ∨
      128 ≤ c.toNat ∧ 2 ≤ (String.utf8EncodeChar c).length ∧
        ∀ b ∈ String.utf8EncodeChar c, ¬b < 0x80 := by
  have hpos := c.utf8Size_pos
  have hle := c.utf8Size_le_four
  have hone : c.utf8Size = 1 ↔ c.toNat ≤ 127 :=
    Char.utf8Size_eq_one_iff.trans UInt32.le_iff_toNat_le
  -- By the number of bytes.
  obtain h | h | h | h : c.utf8Size = 1 ∨ c.utf8Size = 2 ∨ c.utf8Size = 3 ∨ c.utf8Size = 4 := by
    omega
  · have hascii := hone.1 h
    have hnat : (UInt8.ofNat c.toNat).toNat = c.toNat := by
      rw [UInt8.toNat_ofNat']
      omega
    have hlt : UInt8.ofNat c.toNat < 0x80 :=
      UInt8.lt_iff_toNat_lt.2 (by rw [hnat]; exact Nat.lt_succ_of_le hascii)
    exact .inl ⟨_, hlt, by rw [hnat, Char.ofNat_toNat], String.utf8EncodeChar_eq_singleton h⟩
  all_goals refine .inr ⟨by omega, by rw [String.length_utf8EncodeChar]; omega, ?_⟩
  -- In each of the other cases all bytes have the highest bit.
  · rw [String.utf8EncodeChar_eq_cons_cons h, List.forall_mem_cons, List.forall_mem_singleton]
    exact ⟨not_or_lt _ (by decide), not_or_lt _ (by decide)⟩
  · rw [String.utf8EncodeChar_eq_cons_cons_cons h, List.forall_mem_cons, List.forall_mem_cons,
      List.forall_mem_singleton]
    exact ⟨not_or_lt _ (by decide), not_or_lt _ (by decide), not_or_lt _ (by decide)⟩
  · rw [String.utf8EncodeChar_eq_cons_cons_cons_cons h, List.forall_mem_cons, List.forall_mem_cons,
      List.forall_mem_cons, List.forall_mem_singleton]
    exact ⟨not_or_lt _ (by decide), not_or_lt _ (by decide), not_or_lt _ (by decide),
      not_or_lt _ (by decide)⟩

/-- The bytes of a character are read as that character. -/
private theorem decodeOnto_encodeChar (done : Array Glyph) (c : Char) (rest : List UInt8) :
    decodeOnto done 0 (String.utf8EncodeChar c ++ rest) =
      decodeOnto (done.push (.char c)) 0 rest := by
  have hchar := charAt?_encodeChar c rest
  have hlength := String.length_utf8EncodeChar c
  -- A single byte is read by itself, and a first byte tells how many follow.
  rcases encodeChar_cases c with ⟨b, hlt, hsame, hbytes⟩ | ⟨-, -, hhigh⟩
  · rw [hbytes, List.singleton_append, decodeOnto, next, if_pos hlt, hsame]
  · obtain ⟨b, r, hbytes⟩ : ∃ b r, String.utf8EncodeChar c = b :: r :=
      List.exists_cons_of_ne_nil (List.ne_nil_of_length_pos (by rw [hlength]; exact c.utf8Size_pos))
    have hb : ¬b < 0x80 := hhigh b (by rw [hbytes]; exact List.mem_cons_self)
    rw [hbytes] at hchar hlength ⊢
    rw [List.cons_append] at hchar ⊢
    rw [decodeOnto, next, if_neg hb, hchar]
    dsimp only
    rw [← hlength, List.length_cons, Nat.add_sub_cancel, decodeOnto_append]

/-- Characters are read back from their bytes. -/
theorem glyphs_encode (cs : List Char) : glyphs (encode cs) = cs.map .char := by
  -- Characters are read one after another, behind what was read before.
  have honto : ∀ done, decodeOnto done 0 (encode cs) = done ++ (cs.map Glyph.char).toArray := by
    induction cs with
    | nil => intro done; simp [encode, decodeOnto]
    | cons c cs ih =>
      intro done
      rw [encode, List.flatMap_cons, decodeOnto_encodeChar]
      rw [encode] at ih
      rw [ih]
      simp
  rw [glyphs, honto]
  simp

/-- The bytes of a string. -/
theorem toList_toUTF8 (s : String) : s.toUTF8.toList = encode s.toList := by
  obtain ⟨cs, rfl⟩ : ∃ cs, s = String.ofList cs := ⟨s.toList, String.ofList_toList.symm⟩
  show (String.ofList cs).toByteArray.toList = _
  rw [String.toByteArray_ofList, List.utf8Encode, toList_toByteArray, String.toList_ofList]
  rfl

/-- A string is read back from its bytes. -/
theorem glyphs_toUTF8 (s : String) : glyphs s.toUTF8.toList = s.toList.map .char := by
  rw [toList_toUTF8, glyphs_encode]

end SheetTemplate.Text.Utf8
