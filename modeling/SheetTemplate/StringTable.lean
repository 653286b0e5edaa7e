import Std.Data.TreeMap

/-!
# String tables

The texts of a workbook, each in a slot that cells refer to by number. Texts are found again
through a directory that names one slot for a text. `replace` fills a slot anew and forgets the
old text, even if another slot still holds it.
-/

namespace SheetTemplate

/-- Numbered slots of text and a directory from text to slot. -/
structure StringTable where
  slots : Array String := #[]
  directory : Std.TreeMap String Nat := {}

namespace StringTable

/-- The text in a slot. -/
def get? (t : StringTable) (slot : Nat) : Option String := t.slots[slot]?

/-- The number of slots. -/
def size (t : StringTable) : Nat := t.slots.size

/-- All texts in the order of their slots. -/
def toList (t : StringTable) : List String := t.slots.toList

/-- Adds a slot; the directory keeps an older slot of the same text. -/
def append (t : StringTable) (text : String) : StringTable × Nat :=
  ({ slots := t.slots.push text, directory := t.directory.insertIfNew text t.slots.size },
    t.slots.size)

/-- The slot of a text, added if the directory has none. -/
def index (t : StringTable) (text : String) : StringTable × Nat :=
  match t.directory[text]? with
  | some slot => (t, slot)
  | none => t.append text

/-- Puts `new` into the slot of the text `old`; without one, it is the slot of `new`. -/
def replace (t : StringTable) (old new : String) : StringTable × Nat :=
  match t.directory[old]? with
  | some slot =>
    -- If another slot holds the new text, the directory keeps that one.
    ({ slots := t.slots.setIfInBounds slot new
       directory := (t.directory.erase old).insertIfNew new slot }, slot)
  | none => t.index new

/-- The table with the given texts in its first slots. -/
def ofList (texts : List String) : StringTable :=
  texts.foldl (fun t text => (t.append text).1) {}

/-- A text that is added comes last. -/
@[simp]
theorem toList_append (t : StringTable) (text : String) :
    (t.append text).1.toList = t.toList ++ [text] := by
  simp [append, toList]

/-- Its slot is the number of texts before it. -/
@[simp]
theorem append_snd (t : StringTable) (text : String) : (t.append text).2 = t.size := rfl

/-- Adding slots one after another keeps the texts in order. -/
theorem toList_ofList (texts : List String) : (ofList texts).toList = texts := by
  have h : ∀ (l : List String) (t : StringTable),
      (l.foldl (fun t text => (t.append text).1) t).toList = t.toList ++ l := by
    intro l
    induction l with
    | nil => simp
    | cons s r ih => intro t; simp [ih]
  simpa [ofList, toList] using h texts {}

end StringTable

end SheetTemplate
