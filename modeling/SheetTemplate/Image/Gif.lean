import SheetTemplate.Image.Basic

/-!
# GIF headers

A GIF file begins with a logical screen, which gives the size, and a table of colours. The image can
be read if the extensions up to the first image are in order and the file goes on after them.
-/

namespace SheetTemplate.Image.Gif

/-- What follows on data blocks, of which the last is empty. -/
def afterBlocks? : List UInt8 → Option (List UInt8)
  | [] => none
  | length :: r =>
    if length = 0 then some r
    else if length.toNat ≤ r.length then afterBlocks? (r.drop length.toNat)
    else none
termination_by bytes => bytes.length
decreasing_by simp only [List.length_drop, List.length_cons]; omega

/-- Something is taken away by any blocks, if only the one that ends them. -/
theorem length_lt_of_afterBlocks? {bytes rest : List UInt8} (h : afterBlocks? bytes = some rest) :
    rest.length < bytes.length := by
  fun_induction afterBlocks? bytes with
  | case1 => simp at h
  | case2 r =>
    obtain rfl := Option.some.inj h
    simp
  | case3 length r h0 hr ih =>
    have := ih h
    simp only [List.length_drop, List.length_cons] at *
    omega
  | case4 => simp at h

/-- What follows on an extension, given from its label on. One for graphics begins with a block of
four bytes. -/
def afterExtension? : List UInt8 → Option (List UInt8)
  | 0xF9 :: 4 :: _ :: _ :: _ :: _ :: r => afterBlocks? r
  | label :: r => if label = 0x01 ∨ label = 0xFE ∨ label = 0xFF then afterBlocks? r else none
  | [] => none

/-- So it is by an extension. -/
theorem length_lt_of_afterExtension? {bytes rest : List UInt8}
    (h : afterExtension? bytes = some rest) : rest.length < bytes.length := by
  unfold afterExtension? at h
  split at h
  · have := length_lt_of_afterBlocks? h
    simp only [List.length_cons]
    omega
  · split at h
    · have := length_lt_of_afterBlocks? h
      simp only [List.length_cons]
      omega
    · simp at h
  · simp at h

/-- Whether extensions lead to an image or to the end. Something has to follow there, unless the end
comes after an extension. -/
def reachesImage (extended : Bool) : List UInt8 → Bool
  | [] => false
  | kind :: r =>
    if kind = 0x21 then
      match _h : afterExtension? r with
      | some rest => reachesImage true rest
      | none => false
    else !r.isEmpty || (extended && kind == 0x3B)
termination_by bytes => bytes.length
decreasing_by
  exact Nat.lt_succ_of_lt (length_lt_of_afterExtension? (by assumption))

/-- The size that a file gives. -/
def size? (bytes : List UInt8) : Option PixelSize := do
  let (screen, r) ← take? 7 (bytes.drop 6)
  let flags := (screen.getD 4 0).toNat
  -- The highest bit says whether there is a table, the lowest three how large it is.
  let table := if 128 ≤ flags then 3 * Nat.pow 2 (flags % 8 + 1) else 0
  let (_, r) ← take? table r
  if reachesImage false r then
    some ⟨littleEndian (screen.take 2), littleEndian ((screen.drop 2).take 2)⟩
  else none

end SheetTemplate.Image.Gif
