import SheetTemplate.Drawing
import SheetTemplate.Proofs.ReferenceRoundTrip

/-!
# Anchors that move

An anchor moves down by the numbers that its markers hold, and a move changes nothing else. Moves
add up as long as the numbers can be read again. A drawing moves the anchors that were there before
a row and leaves those alone that the row has added at the end.

## Key results

- `Drawing.lowered_lowered`: moves add up
- `Drawing.markerRow?_moveAnchor`: where an anchor is after a move
- `Drawing.moveNodes_append`: only the anchors before the limit move
- `Drawing.markerRow?_pictureAnchor`: a picture begins where it was put
-/

namespace SheetTemplate

open Xml (Element Node)
open Text (natural? max32 add32 add32_of_le numeral trim)

/-! ### The first of some nodes -/

namespace Xml.Node

variable {p q : Element → Bool} {f g : Element → Element}

/-- The elements among some nodes. -/
abbrev elementsOf (nodes : List Node) : List Element := nodes.filterMap element?

/-- The first element that passes the test is the one that was edited, if the edit keeps it
passing. -/
theorem find?_mapFirst (hf : ∀ e, p e = true → p (f e) = true) (nodes : List Node) :
    (elementsOf (mapFirst p f nodes)).find? p = ((elementsOf nodes).find? p).map f := by
  induction nodes with
  | nil => rfl
  | cons n r ih =>
    cases n with
    | element e =>
      cases he : p e with
      | true => simp [mapFirst, isElement, mapElement, element?, he, hf e he]
      | false => simpa [mapFirst, isElement, element?, he] using ih
    | text | cdata | comment => simpa [mapFirst, isElement, element?] using ih

/-- What is found otherwise stays as it is. -/
theorem find?_mapFirst_of_not (hf : ∀ e, p e = true → q e = false ∧ q (f e) = false)
    (nodes : List Node) :
    (elementsOf (mapFirst p f nodes)).find? q = (elementsOf nodes).find? q := by
  -- The edit stops at the first element that passes its test, which does not pass the other one
  -- before or after.
  induction nodes with
  | nil => rfl
  | cons n r ih =>
    cases n with
    | element e =>
      cases he : p e with
      | true => simp [mapFirst, isElement, mapElement, element?, he, hf e he]
      | false =>
        cases hq : q e with
        | true => simp [mapFirst, isElement, element?, he, hq]
        | false => simpa [mapFirst, isElement, element?, he, hq] using ih
    | text | cdata | comment => simpa [mapFirst, isElement, element?] using ih

/-- Only what the first element becomes matters. -/
theorem mapFirst_congr {nodes : List Node}
    (h : ∀ e, (elementsOf nodes).find? p = some e → f e = g e) :
    mapFirst p f nodes = mapFirst p g nodes := by
  -- Only the element that is found is edited, and there the edits agree.
  induction nodes with
  | nil => rfl
  | cons n r ih =>
    cases n with
    | element e =>
      cases he : p e with
      | true => simp [mapFirst, isElement, mapElement, he, h e (by simp [element?, he])]
      | false =>
        have hrest := ih fun e' he' => h e' (by simpa [element?, he] using he')
        simp [mapFirst, isElement, he, hrest]
    | text | cdata | comment => simpa [mapFirst, isElement] using ih h

/-- Two edits of the first element in turn are one, if the first keeps it passing the test. -/
theorem mapFirst_mapFirst (hf : ∀ e, p e = true → p (f e) = true) (nodes : List Node) :
    mapFirst p g (mapFirst p f nodes) = mapFirst p (fun e => g (f e)) nodes := by
  induction nodes with
  | nil => rfl
  | cons n r ih =>
    cases n with
    | element e =>
      cases he : p e with
      | true => simp [mapFirst, isElement, mapElement, he, hf e he]
      | false => simp [mapFirst, isElement, he, ih]
    | text | cdata | comment => simp [mapFirst, isElement, ih]

/-- Edits of elements that are told apart do not meet. -/
theorem mapFirst_comm (hf : ∀ e, p e = true → q e = false ∧ q (f e) = false)
    (hg : ∀ e, q e = true → p (g e) = false) (nodes : List Node) :
    mapFirst p f (mapFirst q g nodes) = mapFirst q g (mapFirst p f nodes) := by
  -- An element that one edit finds is passed over by the other, before its edit and after it.
  induction nodes with
  | nil => rfl
  | cons n r ih =>
    cases n with
    | element e =>
      cases he : p e with
      | true => simp [mapFirst, isElement, mapElement, he, hf e he]
      | false =>
        cases hq : q e with
        | true => simp [mapFirst, isElement, mapElement, he, hq, hg e hq]
        | false => simp [mapFirst, isElement, he, hq, ih]
    | text | cdata | comment => simp [mapFirst, isElement, ih]

end Xml.Node

namespace Drawing

/-! ### Markers -/

/-- Whether an edit keeps the name of an element. -/
private def KeepsName (f : Element → Element) : Prop := ∀ e, (f e).name = e.name

/-- A marker after an edit of its row. -/
def mapRow (f : Element → Element) (m : Element) : Element :=
  { m with children := Node.mapFirst (isLocal "row") f m.children }

/-- An anchor after an edit of the row of a marker. -/
def mapMarker (marker : String) (f : Element → Element) (anchor : Element) : Element :=
  { anchor with children := Node.mapFirst (isLocal marker) (mapRow f) anchor.children }

/-- The row of a marker after a move. -/
private def moveRow (rows : Nat) (row : Element) : Element :=
  row.setText (toString (add32 ((rowNumber? row).getD 0) rows))

/-- Moving a marker is editing its row. -/
private theorem moveMarker_eq (rows : Nat) (marker : String) (anchor : Element) :
    moveMarker rows marker anchor = mapMarker marker (moveRow rows) anchor := rfl

/-- A moved row is named as before. -/
private theorem keepsName_moveRow (rows : Nat) : KeepsName (moveRow rows) := fun _ => rfl

/-- An edit that keeps names keeps the children that are found by them. -/
private theorem KeepsName.isLocal {f : Element → Element} (hf : KeepsName f) (name : String)
    {e : Element} (he : isLocal name e = true) : isLocal name (f e) = true := by
  rw [Drawing.isLocal, hf e]
  exact he

/-- An element has one local name. -/
private theorem isLocal_of_ne {name other : String} (h : name ≠ other) {m : Element}
    (hm : isLocal name m = true) : isLocal other m = false := by
  rw [isLocal, beq_iff_eq] at hm
  rw [isLocal, hm]
  exact beq_eq_false_iff_ne.2 h

section

variable {marker other : String} {f g : Element → Element}

/-- The marker that is found after the edit is the one edited. -/
private theorem find?_mapMarker (marker : String) (f : Element → Element) (anchor : Element) :
    (mapMarker marker f anchor).elements.find? (isLocal marker) =
      (anchor.elements.find? (isLocal marker)).map (mapRow f) :=
  Node.find?_mapFirst (p := isLocal marker) (f := mapRow f) (fun _ he => he) _

/-- The row that is found in it is the one edited. -/
private theorem find?_mapRow (hf : KeepsName f) (m : Element) :
    (mapRow f m).elements.find? (isLocal "row") = (m.elements.find? (isLocal "row")).map f :=
  Node.find?_mapFirst (p := isLocal "row") (f := f) (fun _ he => hf.isLocal _ he) _

/-- The other marker stays where it is. -/
private theorem find?_mapMarker_of_ne (h : marker ≠ other) (f : Element → Element)
    (anchor : Element) :
    (mapMarker marker f anchor).elements.find? (isLocal other) =
      anchor.elements.find? (isLocal other) :=
  Node.find?_mapFirst_of_not (p := isLocal marker) (f := mapRow f)
    (fun _ he => ⟨isLocal_of_ne h he, isLocal_of_ne h he⟩) _

/-- The other marker is at its row still. -/
private theorem markerRow?_mapMarker_of_ne (h : marker ≠ other) (f : Element → Element)
    (anchor : Element) :
    markerRow? (mapMarker marker f anchor) other = markerRow? anchor other := by
  rw [markerRow?, find?_mapMarker_of_ne h]
  rfl

/-- Only what the row becomes matters. -/
private theorem mapMarker_congr {anchor : Element}
    (h : ∀ m, anchor.elements.find? (isLocal marker) = some m →
      ∀ row, m.elements.find? (isLocal "row") = some row → f row = g row) :
    mapMarker marker f anchor = mapMarker marker g anchor := by
  have hnodes : Node.mapFirst (isLocal marker) (mapRow f) anchor.children =
      Node.mapFirst (isLocal marker) (mapRow g) anchor.children :=
    Node.mapFirst_congr fun m hm => by
      rw [mapRow, mapRow, Node.mapFirst_congr (h m hm)]
  rw [mapMarker, mapMarker, hnodes]

/-- Two edits of one marker in turn are one. -/
private theorem mapMarker_mapMarker (hf : KeepsName f) (anchor : Element) :
    mapMarker marker g (mapMarker marker f anchor) =
      mapMarker marker (fun row => g (f row)) anchor := by
  have hrow : (fun m => mapRow g (mapRow f m)) = mapRow fun row => g (f row) := by
    funext m
    unfold mapRow
    dsimp only
    rw [Node.mapFirst_mapFirst (p := isLocal "row") (f := f) fun _ he => hf.isLocal _ he]
  unfold mapMarker
  dsimp only
  rw [Node.mapFirst_mapFirst (p := isLocal marker) (f := mapRow f) fun _ he => he, hrow]

/-- Edits of two markers do not disturb each other. -/
private theorem mapMarker_comm (h : marker ≠ other) (anchor : Element) :
    mapMarker marker f (mapMarker other g anchor) =
      mapMarker other g (mapMarker marker f anchor) := by
  unfold mapMarker
  dsimp only
  rw [Node.mapFirst_comm (p := isLocal marker) (q := isLocal other) (f := mapRow f)
    (g := mapRow g) (fun _ he => ⟨isLocal_of_ne h he, isLocal_of_ne h he⟩)
    fun _ he => isLocal_of_ne h.symm he]

end

/-- A written row is read again. -/
private theorem rowNumber?_setText (row : Element) {n : Nat} (h : n ≤ max32) :
    rowNumber? (row.setText (toString n)) = some n := by
  rw [rowNumber?, Element.text_setText, Text.toList_toString, CellRef.trim_numeral]
  exact Text.natural?_numeral h

/-- A row that has room for the sum is read as the sum after the move. -/
private theorem rowNumber?_moveRow {row : Element} {rows start : Nat}
    (h : rowNumber? row = some start) (hroom : start + rows ≤ max32) :
    rowNumber? (moveRow rows row) = some (start + rows) := by
  rw [moveRow, h, Option.getD_some, add32_of_le hroom]
  exact rowNumber?_setText row hroom

/-- Moves of a row add up if it can be read in between. -/
private theorem moveRow_moveRow {row : Element} {a start : Nat} (b : Nat)
    (h : rowNumber? row = some start) (hroom : start + a ≤ max32) :
    moveRow b (moveRow a row) = moveRow (a + b) row := by
  have hsum : add32 (start + a) b = add32 start (a + b) :=
    congrArg Text.low32 (Nat.add_assoc start a b)
  rw [moveRow, rowNumber?_moveRow h hroom, moveRow, moveRow, h, Option.getD_some, Option.getD_some,
    hsum]
  rfl

/-- The row of a marker, if there is one. -/
private theorem markerRow?_eq_some {anchor : Element} {marker : String} {start : Nat} :
    markerRow? anchor marker = some start ↔ ∃ m row,
      anchor.elements.find? (isLocal marker) = some m ∧
      m.elements.find? (isLocal "row") = some row ∧ rowNumber? row = some start := by
  simp [markerRow?, Option.bind_eq_some_iff]

/-- A row after a move holds the number of rows more. -/
private theorem markerRow?_moveMarker {anchor : Element} {marker : String} {rows start : Nat}
    (h : markerRow? anchor marker = some start) (hroom : start + rows ≤ max32) :
    markerRow? (moveMarker rows marker anchor) marker = some (start + rows) := by
  obtain ⟨m, row, hm, hrow, hstart⟩ := markerRow?_eq_some.1 h
  refine markerRow?_eq_some.2
    ⟨mapRow (moveRow rows) m, moveRow rows row, ?_, ?_, rowNumber?_moveRow hstart hroom⟩
  · rw [moveMarker_eq, find?_mapMarker, hm, Option.map_some]
  · rw [find?_mapRow (keepsName_moveRow rows), hrow, Option.map_some]

/-- Whether a marker, if there is one, can be moved by rows and read again. -/
def HasRoom (rows : Nat) (anchor : Element) (marker : String) : Prop :=
  ∀ m ∈ anchor.elements.find? (isLocal marker),
    ∃ start, markerRow? anchor marker = some start ∧ start + rows ≤ max32

/-- Less of a move needs less room. -/
theorem HasRoom.of_le {rows rows' : Nat} {anchor : Element} {marker : String}
    (h : HasRoom rows anchor marker) (hle : rows' ≤ rows) : HasRoom rows' anchor marker :=
  fun m hm =>
    let ⟨start, hstart, hroom⟩ := h m hm
    ⟨start, hstart, by omega⟩

/-- Moves of a marker add up. -/
private theorem moveMarker_moveMarker {anchor : Element} {marker : String} {a : Nat} (b : Nat)
    (h : HasRoom a anchor marker) :
    moveMarker b marker (moveMarker a marker anchor) = moveMarker (a + b) marker anchor := by
  rw [moveMarker_eq, moveMarker_eq, moveMarker_eq, mapMarker_mapMarker (keepsName_moveRow a)]
  refine mapMarker_congr fun m hm row hrow => ?_
  obtain ⟨start, hstart, hroom⟩ := h m hm
  obtain ⟨m', row', hm', hrow', hnumber⟩ := markerRow?_eq_some.1 hstart
  cases hm.symm.trans hm'
  cases hrow.symm.trans hrow'
  exact moveRow_moveRow b hnumber hroom

/-! ### Anchors -/

/-- An anchor that begins at a row, counted from zero, and can be moved by some rows: where it
begins, counted from one, and, if it has an end, where it ends are numbers of 32 bits, before and
after. -/
structure Movable (rows start : Nat) (anchor : Element) : Prop where
  begins : markerRow? anchor "from" = some start
  room : start + rows < max32
  ends : HasRoom rows anchor "to"

/-- An anchor with the rows of its markers left blank. -/
def blankRows (anchor : Element) : Element :=
  mapMarker "to" (·.setText "") (mapMarker "from" (·.setText "") anchor)

/-- An anchor moved down by rows. Nothing is written anew where there are none. -/
def lowered (rows : Nat) (anchor : Element) : Element :=
  if rows = 0 then anchor else moveAnchor rows anchor

section

variable {anchor : Element} {a b start : Nat}

/-- An anchor that can be moved has room at its start. -/
private theorem Movable.hasRoom (h : Movable a start anchor) : HasRoom a anchor "from" :=
  fun _ _ => ⟨start, h.begins, Nat.le_of_lt h.room⟩

/-- An anchor begins by a number of rows further down after a move. -/
theorem markerRow?_moveAnchor (h : Movable a start anchor) :
    markerRow? (moveAnchor a anchor) "from" = some (start + a) := by
  rw [moveAnchor, moveMarker_eq, markerRow?_mapMarker_of_ne (by decide)]
  exact markerRow?_moveMarker h.begins (Nat.le_of_lt h.room)

/-- It ends by as many rows further down. -/
theorem markerRow?_to_moveAnchor (h : Movable a start anchor) {stop : Nat}
    (hstop : markerRow? anchor "to" = some stop) :
    markerRow? (moveAnchor a anchor) "to" = some (stop + a) := by
  obtain ⟨m, -, hm, -, -⟩ := markerRow?_eq_some.1 hstop
  obtain ⟨stop', hstop', hroom⟩ := h.ends m hm
  cases hstop.symm.trans hstop'
  rw [moveAnchor]
  exact markerRow?_moveMarker
    ((markerRow?_mapMarker_of_ne (by decide) _ anchor).trans hstop) hroom

/-- An anchor that can be moved by both can be moved by the first. -/
theorem Movable.of_add (h : Movable (a + b) start anchor) : Movable a start anchor :=
  ⟨h.begins, by have := h.room; omega, h.ends.of_le (by omega)⟩

/-- And it can be moved by the second afterwards. -/
theorem Movable.moveAnchor (h : Movable (a + b) start anchor) :
    Movable b (start + a) (moveAnchor a anchor) := by
  refine ⟨markerRow?_moveAnchor h.of_add, by have := h.room; omega, fun m hm => ?_⟩
  -- The moved anchor has an end only if the anchor had one.
  rw [Drawing.moveAnchor, moveMarker_eq, Option.mem_def, find?_mapMarker, moveMarker_eq,
    find?_mapMarker_of_ne (by decide)] at hm
  obtain ⟨m', hm', -⟩ := Option.map_eq_some_iff.1 hm
  obtain ⟨stop, hstop, hroom⟩ := h.ends m' hm'
  exact ⟨stop + a, markerRow?_to_moveAnchor h.of_add hstop, by omega⟩

/-- Moves of an anchor add up. -/
private theorem moveAnchor_moveAnchor (b : Nat) (h : Movable a start anchor) :
    moveAnchor b (moveAnchor a anchor) = moveAnchor (a + b) anchor := by
  have hstop : HasRoom a (moveMarker (a + b) "from" anchor) "to" := fun m hm => by
    rw [Option.mem_def, moveMarker_eq, find?_mapMarker_of_ne (by decide)] at hm
    obtain ⟨stop, hstop, hroom⟩ := h.ends m hm
    exact ⟨stop, (markerRow?_mapMarker_of_ne (by decide) _ _).trans hstop, hroom⟩
  have hcomm : moveMarker b "from" (moveMarker a "to" (moveMarker a "from" anchor)) =
      moveMarker a "to" (moveMarker b "from" (moveMarker a "from" anchor)) :=
    mapMarker_comm (by decide) _
  rw [moveAnchor, moveAnchor, hcomm, moveMarker_moveMarker b h.hasRoom,
    moveMarker_moveMarker b hstop]
  rfl

/-- Lowering by nothing changes nothing. -/
theorem lowered_zero (anchor : Element) : lowered 0 anchor = anchor := if_pos rfl

/-- The two facts about moves, for lowering. -/
theorem Movable.lowered (h : Movable (a + b) start anchor) :
    Movable b (start + a) (lowered a anchor) := by
  unfold Drawing.lowered
  split
  · subst a
    rwa [Nat.zero_add] at h
  · exact h.moveAnchor

/-- Lowering in two goes is lowering by the sum. -/
theorem lowered_lowered (b : Nat) (h : Movable a start anchor) :
    lowered b (lowered a anchor) = lowered (a + b) anchor := by
  unfold lowered
  by_cases ha : a = 0
  · simp [ha]
  · by_cases hb : b = 0
    · simp [hb]
    · rw [if_neg hb, if_neg ha, if_neg (by omega), moveAnchor_moveAnchor b h]

/-- Where an anchor is after it was moved down. -/
theorem markerRow?_lowered (h : Movable a start anchor) :
    markerRow? (lowered a anchor) "from" = some (start + a) := by
  unfold lowered
  split
  · subst a
    exact h.begins
  · exact markerRow?_moveAnchor h

/-- The end of an anchor goes down by the same rows, when it has one. -/
theorem markerRow?_to_lowered (h : Movable a start anchor) {stop : Nat}
    (hstop : markerRow? anchor "to" = some stop) :
    markerRow? (lowered a anchor) "to" = some (stop + a) := by
  unfold lowered
  split
  · subst a
    exact hstop
  · exact markerRow?_to_moveAnchor h hstop

/-- A move concerns the rows of the markers and nothing else. -/
theorem blankRows_lowered (rows : Nat) (anchor : Element) :
    blankRows (lowered rows anchor) = blankRows anchor := by
  have hblank : ∀ (marker : String) (e : Element),
      mapMarker marker (·.setText "") (moveMarker rows marker e) =
        mapMarker marker (·.setText "") e := fun marker e => by
    rw [moveMarker_eq, mapMarker_mapMarker (keepsName_moveRow rows)]
    rfl
  unfold lowered
  split
  · rfl
  · rw [blankRows, moveAnchor, mapMarker_comm (show "to" ≠ "from" by decide), hblank "to",
      mapMarker_comm (show "from" ≠ "to" by decide), hblank "from", blankRows]

/-- A lowered anchor is an anchor. -/
theorem isAnchor_lowered (rows : Nat) (anchor : Element) :
    isAnchor (lowered rows anchor) = isAnchor anchor := by
  unfold lowered
  split <;> rfl

/-- Whether an anchor begins below a row depends on where it begins. -/
theorem beginsBelow_eq (row : Nat) (sameLine : Bool) (h : markerRow? anchor "from" = some start)
    (hroom : start < max32) :
    beginsBelow row sameLine anchor = decide (row < start + 1 + sameLine.toNat) := by
  have hsum : add32 start 1 = start + 1 := add32_of_le hroom
  rw [beginsBelow, h, Option.any_some, hsum]
  cases sameLine with
  | false => rfl
  | true => exact decide_eq_decide.2 Nat.lt_succ_iff.symm

end

/-! ### The anchors of a drawing -/

/-- An anchor after the move below a row; all other nodes stay. -/
def moveNode (row rows : Nat) (sameLine : Bool) (n : Node) : Node :=
  if n.isElement isAnchor then
    n.mapElement fun a => if beginsBelow row sameLine a then moveAnchor rows a else a
  else n

/-- With no anchors in the limit nothing moves. -/
private theorem moveNodes_zero (row rows : Nat) (sameLine : Bool) (nodes : List Node) :
    moveNodes row rows sameLine 0 nodes = nodes := by
  cases nodes <;> rfl

/-- Only as many anchors move as were there before others were added at the end. -/
theorem moveNodes_append (row rows : Nat) (sameLine : Bool) (old new : List Node) :
    moveNodes row rows sameLine (old.countP (·.isElement isAnchor)) (old ++ new) =
      old.map (moveNode row rows sameLine) ++ new := by
  induction old with
  | nil => cases new <;> rfl
  | cons n r ih =>
    by_cases hn : n.isElement isAnchor = true
    · rw [List.countP_cons_of_pos hn, List.cons_append, moveNodes, if_pos hn, ih, List.map_cons,
        moveNode, if_pos hn, List.cons_append]
    · rw [List.countP_cons_of_neg hn, List.cons_append, List.map_cons, moveNode, if_neg hn,
        List.cons_append, ← ih]
      -- Once the limit is reached, all else stays.
      cases r.countP (·.isElement isAnchor) with
      | zero => rw [moveNodes_zero, moveNodes_zero]
      | succ limit => rw [moveNodes, if_neg hn]

/-- The anchors of a drawing are counted among its nodes. -/
theorem length_anchors (d : Drawing) :
    d.anchors.length = d.doc.root.children.countP (·.isElement isAnchor) := by
  unfold anchors Element.elements
  rw [← List.countP_eq_length_filter, List.countP_filterMap]
  congr 1
  funext n
  cases n <;> rfl

/-! ### New pictures -/

/-- A name with the namespace of the drawing keeps its local part. -/
theorem localName_qualified (d : Drawing) {name : String} (h : ':' ∉ name.toList) :
    localName (d.qualified name) = name := by
  have hplain : localName name = name := by simp [localName, Text.cutLast?_eq_none.2 h]
  unfold qualified
  split
  · exact hplain
  · exact hplain
  · rename_i q _ _ _
    simp [localName, Text.cutLast?_append q h]

/-- What is added for a picture is an anchor. -/
theorem isAnchor_pictureAnchor (d : Drawing) (shapeId col row : Nat) (extent : Image.Extent)
    (link : String) : isAnchor (d.pictureAnchor shapeId col row extent link) = true := by
  show (localName (d.qualified "oneCellAnchor") == _ || _) = true
  rw [localName_qualified d (by decide)]
  rfl

/-- A picture begins in the row that it was put in. -/
theorem markerRow?_pictureAnchor (d : Drawing) (shapeId col row : Nat) (extent : Image.Extent)
    (link : String) :
    markerRow? (d.pictureAnchor shapeId col row extent link) "from" =
      natural? max32 (numeral row) := by
  have hlocal : ∀ {name : String}, ':' ∉ name.toList → localName (d.qualified name) = name :=
    d.localName_qualified
  have hread : natural? max32 (trim (toString row).toList) = natural? max32 (numeral row) := by
    rw [Text.toList_toString, CellRef.trim_numeral]
  simpa [markerRow?, pictureAnchor, Element.ofChildren, Element.ofText, Element.elements,
    Node.element?, isLocal, hlocal, rowNumber?, Element.text, Node.content, String.join]
    using hread

end Drawing

end SheetTemplate
