import SheetTemplate.Image.Basic

/-!
# PNG headers

A PNG file is a signature and a sequence of chunks, each with its length, type, content and check.
The first chunk gives the size. The image can be read if the chunks up to the first one with pixels
are in order: a chunk that is not critical may be damaged or hold anything, but those that describe
the colours or the frames of an animation may not contradict themselves.
-/

namespace SheetTemplate.Image.Png

/-- The first bytes of every file. -/
def signature : List UInt8 := [0x89, 0x50, 0x4E, 0x47, 0x0D, 0x0A, 0x1A, 0x0A]

/-! ### Chunks -/

/-- One bit of the cyclic redundancy check. -/
def crcShift (crc : UInt32) : UInt32 :=
  if crc &&& 1 == 1 then (crc >>> 1) ^^^ 0xEDB88320 else crc >>> 1

/-- One byte of the cyclic redundancy check. -/
def crcByte (crc : UInt32) (b : UInt8) : UInt32 :=
  (List.range 8).foldl (fun c _ => crcShift c) (crc ^^^ b.toUInt32)

/-- The cyclic redundancy check of bytes. -/
def crc (bytes : List UInt8) : UInt32 := bytes.foldl crcByte 0xFFFFFFFF ^^^ 0xFFFFFFFF

/-- A chunk. -/
structure Chunk where
  type : String
  content : List UInt8
  /-- Whether the check is right. -/
  sound : Bool

/-- The letters of a type. -/
def typeOf (bytes : List UInt8) : String := String.ofList (bytes.map fun b => Char.ofNat b.toNat)

/-- The length and type that a chunk begins with, and the rest. -/
def chunkHead? (bytes : List UInt8) : Option (Nat × List UInt8 × List UInt8) := do
  let (length, r) ← take? 4 bytes
  let (type, r) ← take? 4 r
  return (bigEndian length, type, r)

/-- The first chunk, and the rest. -/
def chunk? (bytes : List UInt8) : Option (Chunk × List UInt8) := do
  let (length, type, r) ← chunkHead? bytes
  let (content, r) ← take? length r
  let (check, r) ← take? 4 r
  return (⟨typeOf type, content, bigEndian check = (crc (type ++ content)).toNat⟩, r)

/-- Whether an image can be read without a chunk: its type begins with a small letter. -/
def Chunk.isAncillary (c : Chunk) : Bool :=
  c.type.toList.head?.any fun letter => letter.toNat.testBit 5

/-! ### The header -/

/-- What the first chunk gives. -/
structure Header where
  size : PixelSize
  depth : Nat
  colour : Nat

/-- The bit depths that a colour type allows. -/
def depths : Nat → List Nat
  | 0 => [1, 2, 4, 8, 16]
  | 2 => [8, 16]
  | 3 => [1, 2, 4, 8]
  | 4 => [8, 16]
  | 6 => [8, 16]
  | _ => []

/-- Reads a header. -/
def header? : List UInt8 → Option Header
  | [a, b, c, d, e, f, g, h, depth, colour, compression, filter, interlace] =>
    let size : PixelSize := ⟨bigEndian [a, b, c, d], bigEndian [e, f, g, h]⟩
    if size.width ≠ 0 ∧ size.height ≠ 0 ∧ depth.toNat ∈ depths colour.toNat ∧ compression = 0 ∧
        filter = 0 ∧ interlace ≤ 1 then some ⟨size, depth.toNat, colour.toNat⟩
    else none
  | _ => none

/-- The numbers that make up a pixel once palettes are looked up. -/
def Header.channels (h : Header) (transparent : Bool) : Nat :=
  match h.colour with
  | 0 => if transparent then 2 else 1
  | 4 => 2
  | 6 => 4
  | _ => if transparent then 4 else 3

/-- The bytes that the pixels of a row take up. -/
def Header.rowLength (h : Header) (transparent : Bool) : Nat :=
  h.size.width * h.channels transparent * if h.depth = 16 then 2 else 1

/-- The most bytes that a row may take up. -/
def maxRowLength : Nat := Nat.pow 2 29

/-! ### The chunks before the pixels -/

/-- What the chunks after the header have given. -/
structure Seen where
  palette : Bool := false
  transparent : Bool := false
  /-- The number of frames announced. -/
  frames : Nat := 0
  codePoints : Bool := false
  mastering : Bool := false
  lightLevel : Bool := false

/-- Whether a palette has at least one colour and at most 256. -/
def isPalette (content : List UInt8) : Bool :=
  content.length % 3 = 0 && 3 ≤ content.length && content.length ≤ 768

/-- Whether a chunk announces a frame of an animation: the next by its number, and as large as the
image, as the first frame has to be. -/
def isFrame (h : Header) (number : Nat) (content : List UInt8) : Bool :=
  let word (i : Nat) : Nat := bigEndian ((content.drop (4 * i)).take 4)
  26 ≤ content.length && word 0 == number && word 1 == h.size.width && word 2 == h.size.height &&
    word 3 == 0 && word 4 == 0 &&
    (content.drop 24).head?.all (· ≤ 2) && (content.drop 25).head?.all (· ≤ 1)

/-- Whether a chunk of transparency fits the colours. -/
def isTransparency (h : Header) (s : Seen) (content : List UInt8) : Bool :=
  match h.colour with
  | 0 => 2 ≤ content.length
  | 2 => 6 ≤ content.length
  | 3 => s.palette
  | _ => false

/-- Whether a description of colours of a certain length counts. One that comes too late or is too
short does not; one that is too long or not `valid` is refused. -/
def describes? (late : Bool) (length : Nat) (content : List UInt8) (valid : Bool) : Option Bool :=
  if late || content.length < length then some false
  else if content.length = length && valid then some true else none

/-- Whether code points belong to colours of red, green and blue. -/
def areCodePoints : List UInt8 → Bool
  | [_, _, matrix, range] => matrix == 0 && range ≤ 1
  | _ => false

/-- Reads a chunk between the header and the pixels. -/
def Seen.read? (h : Header) (s : Seen) (c : Chunk) : Option Seen :=
  if !c.sound then if c.isAncillary then some s else none
  else
    match c.type with
    | "PLTE" => if !s.palette && isPalette c.content then some { s with palette := true } else none
    | "tRNS" => some { s with transparent := s.transparent || isTransparency h s c.content }
    | "fcTL" =>
      if isFrame h s.frames c.content then some { s with frames := s.frames + 1 } else none
    -- Code points and mastering have to come before a palette.
    | "cICP" =>
      let late := s.palette || s.codePoints
      (describes? late 4 c.content (areCodePoints c.content)).map fun counts =>
        { s with codePoints := s.codePoints || counts }
    | "mDCV" =>
      (describes? (s.palette || s.mastering) 24 c.content true).map fun counts =>
        { s with mastering := s.mastering || counts }
    | "cLLI" =>
      (describes? s.lightLevel 8 c.content true).map fun counts =>
        { s with lightLevel := s.lightLevel || counts }
    | _ => if c.isAncillary then some s else none

/-- What the chunks before the pixels give. There are fewer chunks than bytes. -/
def seen? (h : Header) : Nat → Seen → List UInt8 → Option Seen
  | 0, _, _ => none
  | steps + 1, s, bytes => do
    let (length, type, _) ← chunkHead? bytes
    if typeOf type = "IDAT" then some s
    -- Pixels of a frame need the frame to be announced.
    else if typeOf type = "fdAT" then if s.frames ≠ 0 ∧ 4 ≤ length then some s else none
    else
      let (c, r) ← chunk? bytes
      seen? h steps (← s.read? h c) r

/-- The size that a file gives. -/
def size? (bytes : List UInt8) : Option PixelSize := do
  let (c, r) ← chunk? (bytes.drop signature.length)
  if !c.sound || c.type != "IHDR" then none
  let h ← header? c.content
  let s ← seen? h r.length {} r
  if h.rowLength s.transparent ≤ maxRowLength then some h.size else none

end SheetTemplate.Image.Png
