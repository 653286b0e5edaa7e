import Mathlib.Data.Nat.Find
import SheetTemplate.Proofs.CellContents

/-!
# Texts and the slots they are found in

The directory of a string table names a slot for a text, and this slot has the text, whatever the
table went through. As long as texts are looked up and added only, the directory names every text
of a slot, and for a text in several slots the first. A text that is replaced leaves the directory:
other slots that have it are not found any more, until the text is added once more.

## Key results

- `Indexed`, `indexed_run`: a table that finds a text only where it is
- `NamesFirst`, `additions_keep_slots`: texts that are looked up and added
- `isKnown_eq`: which texts the directory names after some calls
- `found_exactly_if_known`: which texts are found after some calls, and when all of them are
-/

namespace SheetTemplate.StringTable

/-! ### Slots and directory after a call -/

/-- There is no text behind the last slot. -/
theorem get?_of_size_le {t : StringTable} {slot : Nat} (h : t.size ≤ slot) : t.get? slot = none :=
  Array.getElem?_eq_none h

/-- A table made from a list has the texts of the list in its slots. -/
theorem get?_ofList (texts : List String) (slot : Nat) :
    (ofList texts).get? slot = texts[slot]? := by
  rw [get?, ← Array.getElem?_toList]
  exact congrArg (·[slot]?) (toList_ofList texts)

/-- A slot with a text is one of the table. -/
theorem lt_size_of_get? {t : StringTable} {slot : Nat} {text : String}
    (h : t.get? slot = some text) : slot < t.size := by
  refine Nat.lt_of_not_le fun hle => ?_
  rw [get?_of_size_le hle] at h
  cases h

/-- A text that is added goes into a new last slot; the other slots keep theirs. -/
theorem get?_append (t : StringTable) (text : String) (slot : Nat) :
    (t.append text).1.get? slot = if slot = t.size then some text else t.get? slot :=
  Array.getElem?_push

/-- The directory names the new slot only for a text it did not name before. -/
theorem directory_append (t : StringTable) (text other : String) :
    (t.append text).1.directory[other]? =
      if text = other ∧ t.directory[text]? = none then some t.size else t.directory[other]? := by
  simp [append, size, Std.TreeMap.getElem?_insertIfNew]

/-- A text that is named is found, and the table stays as it is. -/
theorem index_of_named {t : StringTable} {text : String} {slot : Nat}
    (h : t.directory[text]? = some slot) : t.index text = (t, slot) := by
  simp only [index, h]

/-- A text that is not named is added. -/
theorem index_of_not_named {t : StringTable} {text : String} (h : t.directory[text]? = none) :
    t.index text = t.append text := by
  simp only [index, h]

/-- Replacing a text that is not named is looking up or adding the new one. -/
theorem replace_of_not_named {t : StringTable} {old : String} (h : t.directory[old]? = none)
    (new : String) : t.replace old new = t.index new := by
  simp only [replace, h]

/-- The answer is the slot in which the text was replaced. -/
theorem replace_snd {t : StringTable} {old : String} {slot : Nat}
    (h : t.directory[old]? = some slot) (new : String) : (t.replace old new).2 = slot := by
  simp only [replace, h]

/-- Replacing changes the one slot that the directory named for the old text. -/
theorem get?_replace {t : StringTable} {old : String} {slot : Nat}
    (h : t.directory[old]? = some slot) (hslot : slot < t.size) (new : String) (other : Nat) :
    (t.replace old new).1.get? other = if other = slot then some new else t.get? other := by
  have hsize : slot < t.slots.size := hslot
  simp only [replace, h, get?, Array.getElem?_setIfInBounds, hsize, if_true, eq_comm (a := slot)]

/-- The directory forgets the old text and names its slot for the new text, unless the new text has
another slot already. -/
theorem directory_replace {t : StringTable} {old : String} {slot : Nat}
    (h : t.directory[old]? = some slot) (new other : String) :
    (t.replace old new).1.directory[other]? =
      if new = other ∧ (old = new ∨ t.directory[new]? = none) then some slot
      else if old = other then none else t.directory[other]? := by
  simp [replace, h, Std.TreeMap.getElem?_insertIfNew, Std.TreeMap.getElem?_erase,
    Classical.or_iff_not_imp_left]

/-! ### Calls one after another -/

/-- A call that is answered with a slot. -/
inductive Call where
  | index (text : String)
  | append (text : String)
  | replace (old new : String)

/-- Whether a call adds a text or nothing. -/
def Call.isAddition : Call → Bool
  | .index _ => true
  | .append _ => true
  | .replace _ _ => false

/-- The table after a call, and the slot that the call is answered with. -/
def call (t : StringTable) : Call → StringTable × Nat
  | .index text => t.index text
  | .append text => t.append text
  | .replace old new => t.replace old new

/-- The table after some calls. -/
def run (t : StringTable) (calls : List Call) : StringTable :=
  calls.foldl (fun t c => (t.call c).1) t

/-- Calls made in two goes are the calls of both lists. -/
theorem run_append (t : StringTable) (calls more : List Call) :
    t.run (calls ++ more) = (t.run calls).run more := List.foldl_append

/-- The texts that a table begins with are added one after another. -/
theorem ofList_eq_run (texts : List String) : ofList texts = run {} (texts.map Call.append) := by
  rw [ofList, run, List.foldl_map]
  rfl

/-- What every call keeps holds after all of them. -/
theorem run_induction {motive : StringTable → Prop} {calls : List Call}
    (step : ∀ t, ∀ c ∈ calls, motive t → motive (t.call c).1) {t : StringTable} (h : motive t) :
    motive (t.run calls) := by
  induction calls generalizing t with
  | nil => exact h
  | cons c calls ih =>
    exact ih (fun t d hd => step t d (List.mem_cons_of_mem _ hd)) (step t c List.mem_cons_self h)

/-! ### Texts are where the directory says -/

/-- Every text that the directory of a table knows is in the slot named for it. -/
def Indexed (t : StringTable) : Prop :=
  ∀ (text : String) (slot : Nat), t.directory[text]? = some slot → t.get? slot = some text

/-- A text that is added stands in the slot that is named for it. -/
theorem indexed_append {t : StringTable} (h : t.Indexed) (text : String) :
    (t.append text).1.Indexed := by
  intro other slot hslot
  rw [directory_append] at hslot
  rw [get?_append]
  split at hslot
  · rename_i hnew
    cases hslot
    rw [if_pos rfl, hnew.1]
  · rw [if_neg (Nat.ne_of_lt (lt_size_of_get? (h other slot hslot)))]
    exact h other slot hslot

/-- Looking a text up keeps this, whether the text is found or added. -/
theorem indexed_index {t : StringTable} (h : t.Indexed) (text : String) :
    (t.index text).1.Indexed :=
  of_index (p := Indexed) h (indexed_append h text)

/-- Replacing keeps it as well: the one name that is lost is that of the old text. -/
theorem indexed_replace {t : StringTable} (h : t.Indexed) (old new : String) :
    (t.replace old new).1.Indexed := by
  cases hold : t.directory[old]? with
  | none =>
    rw [replace_of_not_named hold]
    exact indexed_index h new
  | some slot =>
    have hslot := h old slot hold
    intro other slot' hslot'
    rw [directory_replace hold] at hslot'
    rw [get?_replace hold (lt_size_of_get? hslot)]
    split at hslot'
    · rename_i hnew
      cases hslot'
      rw [if_pos rfl, hnew.1]
    · split at hslot'
      · cases hslot'
      · rename_i hne
        have hother := h other slot' hslot'
        -- The slot that is filled anew had another text.
        have hapart : slot' ≠ slot := by
          rintro rfl
          exact hne (Option.some.inj (hslot.symm.trans hother))
        rw [if_neg hapart, hother]

/-- So it holds after any calls. -/
theorem indexed_run {t : StringTable} (h : t.Indexed) (calls : List Call) :
    (t.run calls).Indexed :=
  run_induction (fun t c _ ht => by
    cases c with
    | index text => exact indexed_index ht text
    | append text => exact indexed_append ht text
    | replace old new => exact indexed_replace ht old new) h

/-- It holds of a table made from a list, which is filled by additions. -/
theorem indexed_ofList (texts : List String) : (ofList texts).Indexed := by
  rw [ofList_eq_run]
  exact indexed_run (fun text slot h => by simp at h) _

/-- A text is in the slot that was asked for. -/
theorem get?_index {t : StringTable} (h : t.Indexed) (text : String) :
    (t.index text).1.get? (t.index text).2 = some text := by
  unfold index
  split
  · rename_i slot hslot
    exact h text slot hslot
  · rw [get?_append, append_snd, if_pos rfl]

/-! ### Tables that are only added to -/

/-- The first slot that has a text. -/
def IsFirst (t : StringTable) (text : String) (slot : Nat) : Prop :=
  t.get? slot = some text ∧ ∀ earlier < slot, t.get? earlier ≠ some text

/-- The directory of a table names the first slot of every text that is in one. -/
def NamesFirst (t : StringTable) : Prop :=
  ∀ text slot, t.directory[text]? = some slot ↔ t.IsFirst text slot

/-- A text that stands in some slot stands in a first one. -/
theorem exists_isFirst {t : StringTable} {text : String} {slot : Nat}
    (h : t.get? slot = some text) : ∃ first, t.IsFirst text first := by
  have hex : ∃ slot, t.get? slot = some text := ⟨slot, h⟩
  exact ⟨Nat.find hex, Nat.find_spec hex, fun _ hlt => Nat.find_min hex hlt⟩

/-- A text that is added comes to be first in the new slot if no older slot has it. -/
theorem isFirst_append (t : StringTable) (text other : String) (slot : Nat) :
    (t.append text).1.IsFirst other slot ↔
      t.IsFirst other slot ∨
        (text = other ∧ slot = t.size ∧ ∀ older, t.get? older ≠ some text) := by
  have hold : ∀ older < t.size, (t.append text).1.get? older = t.get? older := fun older hlt => by
    rw [get?_append, if_neg (Nat.ne_of_lt hlt)]
  have hnew : (t.append text).1.get? t.size = some text := by rw [get?_append, if_pos rfl]
  -- The new slot is behind all others, so it is first only for a text that no other has.
  constructor
  · rintro ⟨hslot, hearlier⟩
    obtain rfl | hne := eq_or_ne slot t.size
    · refine .inr ⟨Option.some.inj (hnew.symm.trans hslot), rfl, fun older holder => ?_⟩
      have hlt := lt_size_of_get? holder
      exact hearlier older hlt (by rw [hold older hlt, holder, ← hnew, hslot])
    · rw [get?_append, if_neg hne] at hslot
      refine .inl ⟨hslot, fun earlier he => ?_⟩
      rw [← hold earlier (Nat.lt_trans he (lt_size_of_get? hslot))]
      exact hearlier earlier he
  · rintro (⟨hslot, hearlier⟩ | ⟨rfl, rfl, hfresh⟩)
    · have hlt := lt_size_of_get? hslot
      refine ⟨by rw [hold slot hlt, hslot], fun earlier he => ?_⟩
      rw [hold earlier (Nat.lt_trans he hlt)]
      exact hearlier earlier he
    · refine ⟨hnew, fun earlier he => ?_⟩
      rw [hold earlier he]
      exact hfresh earlier

/-- The directory does not name the texts that no slot has. -/
theorem NamesFirst.eq_none_iff {t : StringTable} (h : t.NamesFirst) (text : String) :
    t.directory[text]? = none ↔ ∀ slot, t.get? slot ≠ some text := by
  constructor
  · intro hnone slot hslot
    obtain ⟨first, hfirst⟩ := exists_isFirst hslot
    cases hnone.symm.trans ((h text first).2 hfirst)
  · intro hno
    rw [Option.eq_none_iff_forall_ne_some]
    exact fun slot hslot => hno slot ((h text slot).1 hslot).1

/-- An addition keeps the directory naming the first slots: it makes a first slot only of a text in
no slot before. -/
theorem namesFirst_append {t : StringTable} (h : t.NamesFirst) (text : String) :
    (t.append text).1.NamesFirst := by
  intro other slot
  have hnone := h.eq_none_iff text
  rw [directory_append, isFirst_append]
  -- The new name is given exactly if there was none, and then no earlier slot has the text.
  split
  · rename_i hfresh
    obtain ⟨rfl, hfresh⟩ := hfresh
    rw [Option.some_inj]
    constructor
    · rintro rfl
      exact .inr ⟨rfl, rfl, hnone.1 hfresh⟩
    · rintro (hfirst | ⟨-, rfl, -⟩)
      · exact absurd hfirst.1 (hnone.1 hfresh slot)
      · rfl
  · rename_i hknown
    rw [h other slot]
    constructor
    · exact .inl
    · rintro (hfirst | ⟨rfl, -, hfresh⟩)
      · exact hfirst
      · exact absurd ⟨rfl, hnone.2 hfresh⟩ hknown

/-- So does looking a text up, found or not. -/
theorem namesFirst_index {t : StringTable} (h : t.NamesFirst) (text : String) :
    (t.index text).1.NamesFirst :=
  of_index (p := NamesFirst) h (namesFirst_append h text)

/-- So do any calls that replace nothing. -/
theorem namesFirst_run {t : StringTable} (h : t.NamesFirst) {calls : List Call}
    (hcalls : ∀ c ∈ calls, c.isAddition = true) : (t.run calls).NamesFirst :=
  run_induction (fun t c hc ht => by
    cases c with
    | index text => exact namesFirst_index ht text
    | append text => exact namesFirst_append ht text
    | replace old new => cases hcalls _ hc) h

/-- A table made from a list names the first slots. -/
theorem namesFirst_ofList (texts : List String) : (ofList texts).NamesFirst := by
  have hempty : (({} : StringTable)).NamesFirst := fun text slot => by simp [IsFirst, get?]
  rw [ofList_eq_run]
  refine namesFirst_run hempty fun c hc => ?_
  obtain ⟨text, -, rfl⟩ := List.mem_map.1 hc
  rfl

/-- Calls that replace nothing leave every slot its text. -/
theorem growsTo_run (t : StringTable) {calls : List Call}
    (hcalls : ∀ c ∈ calls, c.isAddition = true) : t.GrowsTo (t.run calls) :=
  run_induction (motive := t.GrowsTo) (fun t' c hc ht => by
    cases c with
    | index text => exact ht.trans (growsTo_index t' text)
    | append text => exact ht.trans (growsTo_append t' text)
    | replace old new => cases hcalls _ hc) (GrowsTo.refl t)

/-- What a table answers that finds every text in the first slot with it. -/
structure AnswersFirst (t : StringTable) : Prop where
  /-- A text that is in a slot is found in the first one, and the table stays as it is. -/
  found : ∀ text slot, t.get? slot = some text →
    (t.index text).1 = t ∧ t.IsFirst text (t.index text).2
  /-- Any other text gets a slot at the end. -/
  added : ∀ text, (∀ slot, t.get? slot ≠ some text) →
    (t.index text).1.toList = t.toList ++ [text] ∧ (t.index text).2 = t.size
  /-- Texts can also be added that are in the table already. -/
  append : ∀ text, (t.append text).1.toList = t.toList ++ [text] ∧ (t.append text).2 = t.size

/-- When first slots are named, they are the answers. -/
theorem NamesFirst.answersFirst {t : StringTable} (h : t.NamesFirst) : t.AnswersFirst where
  found text slot hslot := by
    obtain ⟨first, hfirst⟩ := exists_isFirst hslot
    rw [index_of_named ((h text first).2 hfirst)]
    exact ⟨rfl, hfirst⟩
  added text hfresh := by
    rw [index_of_not_named ((h.eq_none_iff text).2 hfresh)]
    exact ⟨toList_append t text, rfl⟩
  append text := ⟨toList_append t text, rfl⟩

/-- A table that texts are only looked up in and added to begins with the texts it was made from,
each of its slots keeps its text, and it finds every text in the first slot with it. -/
theorem additions_keep_slots (texts : List String) (calls more : List Call)
    (hcalls : ∀ c ∈ calls, c.isAddition = true) (hmore : ∀ c ∈ more, c.isAddition = true) :
    texts <+: ((ofList texts).run calls).toList ∧
      (∀ slot text, ((ofList texts).run calls).get? slot = some text →
        ((ofList texts).run (calls ++ more)).get? slot = some text) ∧
      ((ofList texts).run calls).AnswersFirst := by
  have hfirst := namesFirst_run (namesFirst_ofList texts) hcalls
  refine ⟨?_, fun slot text hslot => ?_, hfirst.answersFirst⟩
  · have hgrows := growsTo_run (ofList texts) hcalls
    rwa [GrowsTo, toList_ofList] at hgrows
  · rw [run_append]
    exact (growsTo_run _ hmore).get? hslot

/-- The text `b` gets a second slot, keeps it, and is found in the first. -/
theorem additions_keep_slots_sample :
    ((ofList ["a", "b", "a"]).run [.append "b", .index "c"]).toList = ["a", "b", "a", "b", "c"] ∧
      ((ofList ["a", "b", "a"]).run ([.append "b", .index "c"] ++ [.append "d"])).get? 3 =
        some "b" ∧
      (((ofList ["a", "b", "a"]).run [.append "b", .index "c"]).index "b").2 = 1 ∧
      ((ofList ["a", "b", "a"]).run [.append "b", .index "c"]).AnswersFirst := by
  obtain ⟨-, hkept, hanswers⟩ := additions_keep_slots ["a", "b", "a"] [.append "b", .index "c"]
    [.append "d"] (by simp [Call.isAddition]) (by simp [Call.isAddition])
  exact ⟨by decide +kernel, hkept 3 "b" (by decide +kernel), by decide +kernel, hanswers⟩

/-! ### Tables in which texts are replaced -/

/-- Whether a text is known after a call, given whether it was before. -/
def Call.leavesKnown (text : String) (known : Bool) : Call → Bool
  | .index added => added = text || known
  | .append added => added = text || known
  | .replace old new => new = text || (known && old ≠ text)

/-- Whether a text is known after some calls to a table of given texts: in the last call that is
about it, or from the beginning, it was added, and not replaced by another one. -/
def isKnown (texts : List String) (calls : List Call) (text : String) : Bool :=
  calls.foldl (fun known c => c.leavesKnown text known) (texts.contains text)

/-- After an addition the texts named are those from before and the one added. -/
theorem isSome_directory_append (t : StringTable) (added text : String) :
    (t.append added).1.directory[text]?.isSome =
      (added = text || t.directory[text]?.isSome) := by
  rw [directory_append]
  by_cases hadded : added = text
  · subst hadded
    cases t.directory[added]? <;> simp
  · simp [hadded]

/-- The same after looking a text up. -/
theorem isSome_directory_index (t : StringTable) (added text : String) :
    (t.index added).1.directory[text]?.isSome =
      (added = text || t.directory[text]?.isSome) := by
  cases hadded : t.directory[added]? with
  | none =>
    rw [index_of_not_named hadded]
    exact isSome_directory_append t added text
  | some slot =>
    rw [index_of_named hadded]
    by_cases heq : added = text
    · subst heq
      simp [hadded]
    · simp [heq]

/-- After a replacement the new text is named, and the old one is not, unless they are the same. -/
theorem isSome_directory_replace (t : StringTable) (old new text : String) :
    (t.replace old new).1.directory[text]?.isSome =
      (new = text || (t.directory[text]?.isSome && old ≠ text)) := by
  -- Without a name for the old text nothing is replaced, so that no name gets lost.
  cases hold : t.directory[old]? with
  | none =>
    rw [replace_of_not_named hold, isSome_directory_index]
    by_cases heq : old = text
    · subst heq
      simp [hold]
    · simp [heq]
  | some slot =>
    rw [directory_replace hold]
    by_cases hnew : new = text
    · subst hnew
      by_cases heq : old = new
      · simp [heq]
      · cases t.directory[new]? <;> simp [heq]
    · by_cases heq : old = text <;> simp [hnew, heq]

/-- What a single call does to a text's being named, put as one function of the call. -/
theorem isSome_directory_call (t : StringTable) (c : Call) (text : String) :
    (t.call c).1.directory[text]?.isSome = c.leavesKnown text t.directory[text]?.isSome := by
  cases c with
  | index added => exact isSome_directory_index t added text
  | append added => exact isSome_directory_append t added text
  | replace old new => exact isSome_directory_replace t old new text

/-- Over several calls this is the fold of that function: the slots do not matter. -/
theorem isSome_directory_run (t : StringTable) (calls : List Call) (text : String) :
    (t.run calls).directory[text]?.isSome =
      calls.foldl (fun known c => c.leavesKnown text known) t.directory[text]?.isSome := by
  induction calls generalizing t with
  | nil => rfl
  | cons c calls ih =>
    rw [run, List.foldl_cons, List.foldl_cons, ← isSome_directory_call]
    exact ih (t.call c).1

/-- The directory names the texts that are known. -/
theorem isKnown_eq (texts : List String) (calls : List Call) (text : String) :
    ((ofList texts).run calls).directory[text]?.isSome = isKnown texts calls text := by
  have hbegin : (ofList texts).directory[text]?.isSome = texts.contains text := by
    rw [Bool.eq_iff_iff, Option.isSome_iff_ne_none, Ne,
      (namesFirst_ofList texts).eq_none_iff text, List.contains_iff_mem, List.mem_iff_getElem?]
    simp [get?_ofList]
  rw [isSome_directory_run, hbegin, isKnown]

/-- A text is found: looking it up gives a slot that has it and adds none, and replacing it puts the
new text into a slot that had it and into no other one. -/
structure Found (t : StringTable) (text : String) : Prop where
  size : (t.index text).1.size = t.size
  holds : (t.index text).1.get? (t.index text).2 = some text
  held : ∀ new, t.get? (t.replace text new).2 = some text
  replaced : ∀ new slot, (t.replace text new).1.get? slot =
    if slot = (t.replace text new).2 then some new else t.get? slot

/-- Every text that is in a slot is found. -/
def Searchable (t : StringTable) : Prop :=
  ∀ text slot, t.get? slot = some text → t.Found text

/-- The directory of a table names a slot for every text that is in one. -/
def NamesAll (t : StringTable) : Prop :=
  ∀ text slot, t.get? slot = some text → ∃ named, t.directory[text]? = some named

/-- A text that is named is found in its slot without the table changing. -/
theorem found_of_named {t : StringTable} (h : t.Indexed) {text : String} {slot : Nat}
    (hslot : t.directory[text]? = some slot) : t.Found text where
  size := by rw [index_of_named hslot]
  holds := get?_index h text
  held new := by rw [replace_snd hslot, h text slot hslot]
  replaced new other := by
    rw [replace_snd hslot, get?_replace hslot (lt_size_of_get? (h text slot hslot))]

/-- A text that is not named makes the table longer when it is looked up. -/
theorem not_found_of_not_named {t : StringTable} {text : String}
    (h : t.directory[text]? = none) : ¬t.Found text := by
  intro hfound
  have hsize := hfound.size
  rw [index_of_not_named h, size, append, Array.size_push] at hsize
  exact Nat.succ_ne_self _ hsize

/-- Being found and being named are the same, in every table that went through calls. -/
theorem found_iff {t : StringTable} (h : t.Indexed) (text : String) :
    t.Found text ↔ t.directory[text]?.isSome = true := by
  cases hnamed : t.directory[text]? with
  | none => simpa using not_found_of_not_named hnamed
  | some slot => simpa using found_of_named h hnamed

/-- All texts of the slots are found exactly if all of them are named. -/
theorem searchable_iff {t : StringTable} (h : t.Indexed) : t.Searchable ↔ t.NamesAll :=
  forall_congr' fun text => forall_congr' fun slot => imp_congr_right fun _ => by
    rw [found_iff h, Option.isSome_iff_exists]

/-- Whether a call replaces no text that is in several slots, unless by itself. -/
def Call.OneSlot (t : StringTable) : Call → Prop
  | .index _ => True
  | .append _ => True
  | .replace old new => old = new ∨
      ∀ slot other, t.get? slot = some old → t.get? other = some old → slot = other

/-- Whether each of some calls replaces no text that is then in several slots, unless by itself. -/
def OneByOne (t : StringTable) : List Call → Prop
  | [] => True
  | c :: calls => c.OneSlot t ∧ (t.call c).1.OneByOne calls

/-- A directory that names first slots names all texts. -/
theorem NamesFirst.namesAll {t : StringTable} (h : t.NamesFirst) : t.NamesAll := by
  intro text slot hslot
  obtain ⟨first, hfirst⟩ := exists_isFirst hslot
  exact ⟨first, (h text first).2 hfirst⟩

/-- An addition keeps all texts named. -/
theorem namesAll_append {t : StringTable} (h : t.NamesAll) (text : String) :
    (t.append text).1.NamesAll := by
  intro other slot hslot
  rw [get?_append] at hslot
  rw [← Option.isSome_iff_exists, isSome_directory_append]
  split at hslot
  · simp [Option.some.inj hslot]
  · simp [Option.isSome_iff_exists.2 (h other slot hslot)]

/-- So does looking a text up. -/
theorem namesAll_index {t : StringTable} (h : t.NamesAll) (text : String) :
    (t.index text).1.NamesAll :=
  of_index (p := NamesAll) h (namesAll_append h text)

/-- The slot that is filled anew is the only one that has the text, or keeps it. -/
theorem oneSlot_replace_iff {t : StringTable} {old : String} {slot : Nat}
    (hslot : t.get? slot = some old) (new : String) :
    (Call.replace old new).OneSlot t ↔
      old = new ∨ ∀ other, t.get? other = some old → other = slot :=
  or_congr_right ⟨fun hsingle other hother => hsingle other slot hother hslot,
    fun hsingle i j hi hj => (hsingle i hi).trans (hsingle j hj).symm⟩

/-- Replacing a text leaves the other slots that have it without an entry, and no slots of other
texts. -/
theorem namesAll_replace_iff {t : StringTable} (h : t.Indexed) (hall : t.NamesAll)
    (old new : String) : (t.replace old new).1.NamesAll ↔ (Call.replace old new).OneSlot t := by
  cases hold : t.directory[old]? with
  | none =>
    -- No slot has the text.
    rw [replace_of_not_named hold]
    refine iff_of_true (namesAll_index hall new) (.inr fun slot _ hslot => ?_)
    obtain ⟨named, hnamed⟩ := hall old slot hslot
    cases hold.symm.trans hnamed
  | some slot =>
    have hslot := h old slot hold
    have hget := get?_replace hold (lt_size_of_get? hslot) new
    rw [oneSlot_replace_iff hslot]
    constructor
    · intro hafter
      refine Classical.or_iff_not_imp_left.2 fun hne other hother => ?_
      by_contra hapart
      -- The text stays in the other slot, but not in the directory.
      obtain ⟨named, hnamed⟩ := hafter old other (by rw [hget, if_neg hapart, hother])
      have hlost := isSome_directory_replace t old new old
      simp [hnamed, Ne.symm hne] at hlost
    -- The new text is named in any case; any other text was named, and only the old one is lost.
    · intro hsingle text other hother
      rw [hget] at hother
      rw [← Option.isSome_iff_exists, isSome_directory_replace]
      split at hother
      · simp [Option.some.inj hother]
      · rename_i hapart
        have hnamed := Option.isSome_iff_exists.2 (hall text other hother)
        by_cases heq : old = text
        · subst heq
          obtain rfl | hsingle := hsingle
          · simp
          · exact absurd (hsingle other hother) hapart
        · simp [hnamed, heq]

/-- Of all calls only a replacement can lose a name, and it does so for a text in several slots. -/
theorem namesAll_call_iff {t : StringTable} (h : t.Indexed) (hall : t.NamesAll) (c : Call) :
    (t.call c).1.NamesAll ↔ c.OneSlot t := by
  cases c with
  | index text => exact iff_of_true (namesAll_index hall text) trivial
  | append text => exact iff_of_true (namesAll_append hall text) trivial
  | replace old new => exact namesAll_replace_iff h hall old new

/-- All of a table can be found throughout some calls exactly if each text that they replace is in
one slot only, or replaced by itself. -/
theorem searchable_run_iff {t : StringTable} (h : t.Indexed) (hall : t.NamesAll)
    (calls : List Call) :
    (∀ before, before <+: calls → (t.run before).Searchable) ↔ t.OneByOne calls := by
  -- On the calls: both sides speak of the table before the first one and of what the rest does.
  induction calls generalizing t with
  | nil =>
    refine iff_of_true (fun before hbefore => ?_) trivial
    rw [List.prefix_nil.1 hbefore]
    exact (searchable_iff h).2 hall
  | cons c calls ih =>
    have hindexed : (t.call c).1.Indexed := indexed_run h [c]
    have hstep := namesAll_call_iff h hall c
    constructor
    · intro hfound
      have hnames : (t.call c).1.NamesAll :=
        (searchable_iff hindexed).1 (hfound [c] (List.prefix_append [c] calls))
      refine ⟨hstep.1 hnames, (ih hindexed hnames).1 fun before hbefore => ?_⟩
      exact hfound (c :: before) ((List.prefix_cons_inj c).2 hbefore)
    · rintro ⟨hone, hmore⟩ before hbefore
      obtain rfl | ⟨rest, rfl, hrest⟩ := List.prefix_cons_iff.1 hbefore
      · exact (searchable_iff h).2 hall
      · exact (ih hindexed (hstep.2 hone)).2 hmore rest hrest

/-- After any calls a text is found exactly if it is known: then the table stays as it is when the
text is looked up. One that is not known is added, even if a slot has it, and to replace it is to
look up the new text. All texts in the slots are found, at any time, exactly if no text is replaced
that is in several slots, unless by itself. -/
theorem found_exactly_if_known (texts : List String) (calls : List Call) :
    (∀ text, ((ofList texts).run calls).Found text ↔ isKnown texts calls text = true) ∧
      (∀ text, isKnown texts calls text = true →
        (((ofList texts).run calls).index text).1 = (ofList texts).run calls) ∧
      (∀ text, isKnown texts calls text = false →
        ((ofList texts).run calls).index text = ((ofList texts).run calls).append text ∧
          ∀ new, ((ofList texts).run calls).replace text new =
            ((ofList texts).run calls).index new) ∧
      ((∀ before, before <+: calls → ((ofList texts).run before).Searchable) ↔
        (ofList texts).OneByOne calls) := by
  have hindexed := indexed_run (indexed_ofList texts) calls
  refine ⟨fun text => ?_, fun text hknown => ?_, fun text hunknown => ?_, ?_⟩
  · rw [found_iff hindexed, isKnown_eq]
  · rw [← isKnown_eq, Option.isSome_iff_exists] at hknown
    obtain ⟨slot, hslot⟩ := hknown
    rw [index_of_named hslot]
  · rw [← isKnown_eq, Option.isSome_eq_false_iff, Option.isNone_iff_eq_none] at hunknown
    exact ⟨index_of_not_named hunknown, replace_of_not_named hunknown⟩
  · exact searchable_run_iff (indexed_ofList texts) (namesFirst_ofList texts).namesAll calls

/-- Of two slots with the same text, replacing the text fills the first and forgets the second. -/
theorem forgotten_in_other_slot :
    ¬∀ texts calls, ((ofList texts).run calls).Searchable := by
  intro h
  have hfound := h ["a", "a"] [.replace "a" "b"] "a" 1 (by decide +kernel)
  exact absurd hfound.size (by decide +kernel)

end SheetTemplate.StringTable
