import SheetTemplate.Proofs.AsciiUnits
import SheetTemplate.Text.Percent

/-!
# Percent encoding and decoding

An encoded text is read one escape or one other character after another, and each stands for its
bytes. A text that was encoded is read back. The other way round nothing tells which characters were
escaped: an encoded text that is decoded and encoded again keeps its reserved characters, but an
escape of a reserved character becomes that character.

## Key results

- `escapes_induction`: an escape or another character after another
- `decodeText_spells`: where a text can be read apart
- `decodeText_encode`: what is encoded is read back
- `reserved_decodeText_eq_iff`: when decoding brings up no reserved character
-/

namespace SheetTemplate.Text.Percent

/-! ### Escapes and other characters -/

/-- The byte of the escape that a text begins with, and the text after it. -/
def escapeAt? : List Char → Option (UInt8 × List Char)
  | '%' :: a :: b :: r => (hexByte? a b).map fun byte => (byte, r)
  | _ => none

/-- The bytes that the escapes of a text stand for. -/
def escaped : List Char → List UInt8
  | [] => []
  | '%' :: a :: b :: r =>
    match hexByte? a b with
    | some byte => byte :: escaped r
    | none => escaped (a :: b :: r)
  | _ :: r => escaped r

/-- An escape is decoded to its byte. -/
theorem decode_escape {a b : Char} {byte : UInt8} (h : hexByte? a b = some byte) (r : List Char) :
    decode ('%' :: a :: b :: r) = byte :: decode r := by
  rw [decode, h]

/-- A character that begins no escape is decoded to its bytes. -/
theorem decode_cons {c : Char} {r : List Char} (h : escapeAt? (c :: r) = none) :
    decode (c :: r) = String.utf8EncodeChar c ++ decode r := by
  conv_lhs => unfold decode
  -- A percent sign with two digits would be an escape; one without them stands for itself.
  split
  · contradiction
  · rename_i a b r' heq
    obtain ⟨rfl, rfl⟩ := List.cons.inj heq
    rw [escapeAt?, Option.map_eq_none_iff] at h
    rw [h]
    rfl
  · rename_i heq
    obtain ⟨rfl, rfl⟩ := List.cons.inj heq
    rfl

/-- The bytes that are escaped begin with that of the first escape. -/
theorem escaped_escape {a b : Char} {byte : UInt8} (h : hexByte? a b = some byte)
    (r : List Char) : escaped ('%' :: a :: b :: r) = byte :: escaped r := by
  rw [escaped, h]

/-- A character that begins no escape has no escaped byte. -/
theorem escaped_cons {c : Char} {r : List Char} (h : escapeAt? (c :: r) = none) :
    escaped (c :: r) = escaped r := by
  conv_lhs => unfold escaped
  split
  · contradiction
  · rename_i a b r' heq
    obtain ⟨rfl, rfl⟩ := List.cons.inj heq
    rw [escapeAt?, Option.map_eq_none_iff] at h
    rw [h]
  · rename_i heq
    obtain ⟨rfl, rfl⟩ := List.cons.inj heq
    rfl

/-- A property of all texts, from what they begin with: an escape or another character. -/
theorem escapes_induction {motive : List Char → Prop} (nil : motive [])
    (escape : ∀ a b byte r, hexByte? a b = some byte → motive r → motive ('%' :: a :: b :: r))
    (char : ∀ c r, escapeAt? (c :: r) = none → motive r → motive (c :: r)) (cs : List Char) :
    motive cs := by
  induction cs using decode.induct with
  | case1 => exact nil
  | case2 a b r byte h ih => exact escape a b byte r h ih
  | case3 a b r h ih => exact char _ _ (by rw [escapeAt?, h]; rfl) ih
  | case4 c r hother ih =>
    refine char c r ?_ ih
    unfold escapeAt?
    split
    · rename_i a b r' heq
      obtain ⟨rfl, rfl⟩ := List.cons.inj heq
      exact absurd rfl (hother a b r' rfl)
    · rfl

/-- Only a percent sign begins an escape. -/
theorem escapeAt?_of_ne {c : Char} (hc : c ≠ '%') (r : List Char) : escapeAt? (c :: r) = none := by
  unfold escapeAt?
  split
  · rename_i heq
    exact absurd (List.cons.inj heq).1 hc
  · rfl

/-- Both characters of an escape are digits. -/
theorem hexValues_of_hexByte? {a b : Char} {byte : UInt8} (h : hexByte? a b = some byte) :
    hexValue? a ≠ none ∧ hexValue? b ≠ none := by
  constructor <;> intro hnone <;> simp [hexByte?, hexNumber?, hnone] at h

/-! ### Texts one after another -/

/-- An escape is complete where no digit follows. -/
private theorem escapeAt?_append {c : Char} {r y : List Char} (h : escapeAt? (c :: r) = none)
    (hy : ∀ d ∈ y.head?, hexValue? d = none) : escapeAt? (c :: (r ++ y)) = none := by
  -- An escape across the end of the first text would need a digit at the beginning of the second.
  obtain rfl | hc := eq_or_ne c '%'
  · rw [Option.eq_none_iff_forall_ne_some]
    rintro ⟨byte, rest⟩ hfound
    obtain _ | ⟨a, _ | ⟨b, r⟩⟩ := r
    · obtain _ | ⟨a, _ | ⟨b, y⟩⟩ := y
      · cases hfound
      · cases hfound
      · obtain ⟨_, hbyte, -⟩ := Option.map_eq_some_iff.1 hfound
        exact (hexValues_of_hexByte? hbyte).1 (hy a rfl)
    · obtain _ | ⟨b, y⟩ := y
      · cases hfound
      · obtain ⟨_, hbyte, -⟩ := Option.map_eq_some_iff.1 hfound
        exact (hexValues_of_hexByte? hbyte).2 (hy b rfl)
    · rw [escapeAt?, Option.map_eq_none_iff] at h
      rw [List.cons_append, List.cons_append, escapeAt?, h] at hfound
      cases hfound
  · exact escapeAt?_of_ne hc _

/-- A text that does not begin with a digit is decoded by itself. -/
theorem decode_append (x : List Char) {y : List Char} (hy : ∀ d ∈ y.head?, hexValue? d = none) :
    decode (x ++ y) = decode x ++ decode y := by
  induction x using escapes_induction with
  | nil => rfl
  | escape a b byte r h ih =>
    show decode ('%' :: a :: b :: (r ++ y)) = _
    rw [decode_escape h, ih, decode_escape h, List.cons_append]
  | char c r h ih =>
    rw [List.cons_append, decode_cons (escapeAt?_append h hy), ih, decode_cons h,
      List.append_assoc]

/-- How a character of ASCII can stand in an encoded text. -/
inductive Spells (c : Char) : List Char → Prop where
  | raw : Spells c [c]
  | escape {a b : Char} {byte : UInt8} (h : hexByte? a b = some byte)
      (hbyte : Utf8.ofByte byte = c) : Spells c ['%', a, b]

/-- The text in front of such a character, the character, and the text behind it. -/
theorem decodeText_spells {c : Char} {u : List Char} (hu : Spells c u) (hascii : c.toNat < 128)
    (hdigit : hexValue? c = none) (hpercent : c ≠ '%') (x y : List Char) :
    decodeText (x ++ (u ++ y)) = decodeText x ++ c :: decodeText y := by
  have hhead : ∀ d ∈ (u ++ y).head?, hexValue? d = none := by
    cases hu with
    | raw => simpa using hdigit
    | escape h => simp; decide
  -- Either way the character is one byte of the decoded text.
  obtain ⟨byte, hbyte, hdecoded⟩ :
      ∃ byte, Utf8.ofByte byte = c ∧ decode (u ++ y) = byte :: decode y := by
    cases hu with
    | raw =>
      obtain ⟨byte, hbyte, hone⟩ := Utf8.encodeChar_ascii hascii
      refine ⟨byte, hbyte, ?_⟩
      rw [List.singleton_append, decode_cons (escapeAt?_of_ne hpercent _), hone]
      rfl
    | escape h hbyte => exact ⟨_, hbyte, decode_escape h y⟩
  rw [decodeText, decode_append x hhead, hdecoded,
    Utf8.glyphs_append_ascii (Utf8.ofByte_lt (hbyte ▸ hascii)), Utf8.lossy_append]
  exact congrArg (_ ++ · :: _) hbyte

/-! ### What is encoded -/

/-- The escapes of some bytes are decoded to these bytes. -/
private theorem decode_flatMap_escape (bytes : List UInt8) (r : List Char) :
    decode (bytes.flatMap escape ++ r) = bytes ++ decode r := by
  induction bytes with
  | nil => rfl
  | cons b bytes ih =>
    show decode ('%' :: _ :: _ :: (bytes.flatMap escape ++ r)) = _
    rw [decode_escape (hexByte?_hexDigit b), ih, List.cons_append]

/-- Decoding gives back the bytes of the text that was encoded. -/
theorem decode_encode (cs : List Char) : decode (encode cs) = Utf8.encode cs := by
  -- Along the text: a character that is kept is none that begins an escape, any other was escaped
  -- byte by byte.
  induction cs with
  | nil => rfl
  | cons c r ih =>
    rw [encode] at ih
    rw [encode, List.flatMap_cons, Utf8.encode, List.flatMap_cons, ← Utf8.encode, ← ih]
    split
    · rename_i hkept
      have hc : c ≠ '%' := by
        rintro rfl
        exact absurd hkept (by decide)
      rw [List.singleton_append, decode_cons (escapeAt?_of_ne hc _)]
    · exact decode_flatMap_escape ..

/-- A text is read back from its encoded form. -/
@[simp]
theorem decodeText_encode (cs : List Char) : decodeText (encode cs) = cs := by
  rw [decodeText, decode_encode, Utf8.glyphs_encode, Utf8.lossy_map_char]

/-- Texts are encoded one after the other. -/
theorem encode_append (x y : List Char) : encode (x ++ y) = encode x ++ encode y :=
  List.flatMap_append

/-! ### Reserved characters -/

/-- The characters that divide a link into its parts. -/
def reservedMarks : List Char := [';', ',', '/', '?', ':', '@', '&', '=', '+', '$', '#']

/-- Whether a character divides a link. -/
def isReserved (c : Char) : Bool := reservedMarks.contains c

/-- The reserved characters of a text that are not escaped. -/
def reserved (cs : List Char) : List Char := cs.filter isReserved

/-- The reserved characters of two texts are those of both. -/
theorem reserved_append (x y : List Char) : reserved (x ++ y) = reserved x ++ reserved y :=
  List.filter_append ..

/-- Reserved characters are kept by encoding. -/
theorem isKept_of_isReserved {c : Char} (h : isReserved c = true) : isKept c = true := by
  have hall : reservedMarks.all isKept = true := by decide
  exact List.all_eq_true.1 hall c (List.contains_iff_mem.1 h)

/-- They are characters of one byte. -/
theorem toNat_lt_of_isReserved {c : Char} (h : isReserved c = true) : c.toNat < 128 := by
  have hall : (reservedMarks.all fun c => decide (c.toNat < 128)) = true := by decide
  exact of_decide_eq_true (List.all_eq_true.1 hall c (List.contains_iff_mem.1 h))

/-- No digit of an escape is reserved. -/
theorem isReserved_of_hexValue? {c : Char} (h : hexValue? c ≠ none) : isReserved c = false := by
  have hall : (reservedMarks.all fun c => (hexValue? c).isNone) = true := by decide
  exact Bool.eq_false_iff.2 fun hc =>
    h (Option.isNone_iff_eq_none.1 (List.all_eq_true.1 hall c (List.contains_iff_mem.1 hc)))

/-- The characters of an escape are not reserved. -/
private theorem reserved_escape {a b : Char} {byte : UInt8} (h : hexByte? a b = some byte)
    (r : List Char) : reserved ('%' :: a :: b :: r) = reserved r := by
  have ha := isReserved_of_hexValue? (hexValues_of_hexByte? h).1
  have hb := isReserved_of_hexValue? (hexValues_of_hexByte? h).2
  have hpercent : isReserved '%' = false := by decide
  simp [reserved, ha, hb, hpercent]

/-- Encoding keeps the reserved characters, and brings up no others. -/
theorem reserved_encode (cs : List Char) : reserved (encode cs) = reserved cs := by
  have hescapes (bytes : List UInt8) : reserved (bytes.flatMap escape) = [] := by
    induction bytes with
    | nil => rfl
    | cons b bytes ih => exact (reserved_escape (hexByte?_hexDigit b) _).trans ih
  induction cs with
  | nil => rfl
  | cons c r ih =>
    rw [encode] at ih
    rw [encode, List.flatMap_cons, reserved_append, ih]
    split
    · exact (reserved_append [c] r).symm
    · rename_i hkept
      have hc : isReserved c ≠ true := fun hc => hkept (isKept_of_isReserved hc)
      rw [hescapes, List.nil_append, reserved, reserved, List.filter_cons_of_neg hc]

/-- Only bytes below 128 become reserved characters, however the others are read. -/
private theorem reserved_decodeText (cs : List Char) :
    reserved (decodeText cs) = reserved ((decode cs).map Utf8.ofByte) :=
  Utf8.filter_lossy_glyphs (fun _ => toNat_lt_of_isReserved) _

/-- The reserved characters of a text that begins with an escape. -/
private theorem reserved_decodeText_escape {a b : Char} {byte : UInt8}
    (h : hexByte? a b = some byte) (r : List Char) :
    reserved (decodeText ('%' :: a :: b :: r)) =
      reserved [Utf8.ofByte byte] ++ reserved (decodeText r) := by
  rw [reserved_decodeText, reserved_decodeText, decode_escape h, List.map_cons]
  exact reserved_append [Utf8.ofByte byte] _

/-- And of one that begins with another character. -/
private theorem reserved_decodeText_cons {c : Char} {r : List Char}
    (h : escapeAt? (c :: r) = none) :
    reserved (decodeText (c :: r)) = reserved [c] ++ reserved (decodeText r) := by
  rw [reserved_decodeText, reserved_decodeText, decode_cons h, List.map_append, reserved_append]
  congr 1
  have hchar := Utf8.filter_lossy_glyphs (fun _ => toNat_lt_of_isReserved) (Utf8.encode [c])
  rw [Utf8.glyphs_encode, Utf8.lossy_map_char] at hchar
  simpa [Utf8.encode, reserved] using hchar.symm

/-- Decoding keeps the reserved characters and may add some. -/
theorem sublist_reserved_decodeText (cs : List Char) :
    (reserved cs).Sublist (reserved (decodeText cs)) := by
  induction cs using escapes_induction with
  | nil => exact List.Sublist.refl _
  | escape a b byte r h ih =>
    rw [reserved_escape h, reserved_decodeText_escape h]
    exact ih.trans (List.sublist_append_right ..)
  | char c r h ih =>
    rw [reserved_decodeText_cons h]
    exact reserved_append [c] r ▸ ih.append_left _

/-- It adds one for each escape of a reserved character. -/
theorem length_reserved_decodeText (cs : List Char) :
    (reserved (decodeText cs)).length =
      (reserved cs).length + (escaped cs).countP fun b => isReserved (Utf8.ofByte b) := by
  -- The induction is on escapes and other characters, as the text is decoded.
  induction cs using escapes_induction with
  | nil => rfl
  | escape a b byte r h ih =>
    have hone : (reserved [Utf8.ofByte byte]).length =
        if isReserved (Utf8.ofByte byte) = true then 1 else 0 := by
      cases hbyte : isReserved (Utf8.ofByte byte) <;> simp [reserved, hbyte]
    rw [reserved_escape h, reserved_decodeText_escape h, escaped_escape h, List.length_append, ih,
      hone, List.countP_cons]
    omega
  | char c r h ih =>
    have hcons : reserved (c :: r) = reserved [c] ++ reserved r := reserved_append [c] r
    rw [reserved_decodeText_cons h, escaped_cons h, List.length_append, ih, hcons,
      List.length_append, Nat.add_assoc]

/-- Decoding brings up no reserved character exactly if none is escaped. -/
theorem reserved_decodeText_eq_iff (cs : List Char) :
    reserved (decodeText cs) = reserved cs ↔
      ∀ b ∈ escaped cs, isReserved (Utf8.ofByte b) = false := by
  have hlength := length_reserved_decodeText cs
  have hnone : (∀ b ∈ escaped cs, isReserved (Utf8.ofByte b) = false) ↔
      (escaped cs).countP (fun b => isReserved (Utf8.ofByte b)) = 0 := by
    simp [List.countP_eq_zero]
  rw [hnone]
  constructor
  · intro h
    rw [h] at hlength
    omega
  · intro h
    exact ((sublist_reserved_decodeText cs).eq_of_length (by omega)).symm

end SheetTemplate.Text.Percent
