import SheetTemplate.Proofs.AddedRelationships

/-!
# Parts that are new

Drawings and pictures are numbered: a new one gets the number after the largest that a part of its
family has. Numbers have 32 bits, and the number after the last of them is zero. So the name of the
new part is fresh as long as the last number is not taken, and once it is, the part with the number
zero may be one that is there.

Parts that are stored keep the places of those that were there. New ones come last, in the order in
which they are stored.

## Key results

- `lastIndex_le_iff`: the largest number of a family
- `numbered_not_mem_names`, `lastIndex_set_numbered`: a part with the next number is new, and has
  the largest number then
- `filter_store_of_not`, `names_store`: what storing parts leaves of a package
-/

namespace SheetTemplate

open Text (after? natural? max32 add32_of_le numeral natural?_numeral toList_toString
  isDigit_of_mem_numeral)

namespace Text

/-- A numeral ends where a character follows that is no digit. -/
theorem takeWhile_numeral (n : Nat) {rest : List Char} (h : ∀ c ∈ rest.head?, c.isDigit = false) :
    (numeral n ++ rest).takeWhile Char.isDigit = numeral n := by
  rw [List.takeWhile_append_of_pos fun c hc => isDigit_of_mem_numeral hc]
  cases rest with
  | nil => simp
  | cons c r => rw [List.takeWhile_cons_of_neg (by simp [h c rfl]), List.append_nil]

end Text

/-- The largest of some numbers is within a bound exactly if all of them are. -/
theorem foldl_max_le_iff {bound start : Nat} {ns : List Nat} :
    ns.foldl max start ≤ bound ↔ start ≤ bound ∧ ∀ n ∈ ns, n ≤ bound := by
  induction ns generalizing start with
  | nil => simp
  | cons m ns ih => rw [List.foldl_cons, ih, Nat.max_le, List.forall_mem_cons, and_assoc]

namespace Package

variable {p : Package} {stem : String}

/-! ### Numbers -/

/-- A name with a number in it has that number. -/
theorem fileIndex?_numbered (stem : String) {n : Nat} (hn : n ≤ max32) {ending : String}
    (hending : ∀ c ∈ ending.toList.head?, c.isDigit = false) :
    fileIndex? stem (stem ++ toString n ++ ending) = some n := by
  rw [fileIndex?, String.toList_append, String.toList_append, List.append_assoc,
    Text.after?_append, Option.bind_some, toList_toString, Text.takeWhile_numeral n hending,
    natural?_numeral hn]

/-- The largest number of a family is within a bound exactly if all its numbers are. -/
theorem lastIndex_le_iff {bound : Nat} :
    p.lastIndex stem ≤ bound ↔ ∀ name ∈ p.names, ∀ n ∈ fileIndex? stem name, n ≤ bound := by
  rw [lastIndex, foldl_max_le_iff]
  constructor
  · rintro ⟨-, h⟩ name hname n hn
    exact h n (List.mem_filterMap.2 ⟨name, hname, hn⟩)
  · refine fun h => ⟨Nat.zero_le _, fun n hn => ?_⟩
    obtain ⟨name, hname, hn⟩ := List.mem_filterMap.1 hn
    exact h name hname n hn

/-- No number of a family is larger than the largest. -/
theorem le_lastIndex {name : String} {n : Nat} (hname : name ∈ p.names)
    (h : fileIndex? stem name = some n) : n ≤ p.lastIndex stem :=
  lastIndex_le_iff.1 (Nat.le_refl _) name hname n h

/-- The largest number does not become less as long as all parts with a number stay. -/
theorem lastIndex_le_of_kept {p' : Package}
    (h : ∀ name ∈ p.names, (fileIndex? stem name).isSome = true → name ∈ p'.names) :
    p.lastIndex stem ≤ p'.lastIndex stem := lastIndex_le_iff.2 fun name hname _ hn =>
  le_lastIndex (h name hname (Option.isSome_of_eq_some hn)) hn

/-- Parts that are added do not lower the largest number. -/
theorem lastIndex_mono {p' : Package} (h : p.names ⊆ p'.names) (stem : String) :
    p.lastIndex stem ≤ p'.lastIndex stem := lastIndex_le_of_kept fun _ hname _ => h hname

/-- As long as the last number is not taken, the next one is the one after the largest. -/
theorem nextIndex_of_lt (h : p.lastIndex stem < max32) :
    p.nextIndex stem = p.lastIndex stem + 1 := add32_of_le h

section

variable {ending : String}

/-- The next number makes a fresh name, as long as the last one is not taken. -/
theorem numbered_not_mem_names (h : p.lastIndex stem < max32)
    (hending : ∀ c ∈ ending.toList.head?, c.isDigit = false) :
    stem ++ toString (p.nextIndex stem) ++ ending ∉ p.names := by
  intro hmem
  rw [nextIndex_of_lt h] at hmem
  exact Nat.not_succ_le_self _ (le_lastIndex hmem (fileIndex?_numbered stem h hending))

/-- The part that is stored under the next number has the largest then. -/
theorem lastIndex_set_numbered (h : p.lastIndex stem < max32)
    (hending : ∀ c ∈ ending.toList.head?, c.isDigit = false) (bytes : ByteArray) :
    (p.set (stem ++ toString (p.nextIndex stem) ++ ending) bytes).lastIndex stem =
      p.lastIndex stem + 1 := by
  have hnew := fileIndex?_numbered stem (Nat.succ_le_of_lt h) hending
  rw [nextIndex_of_lt h]
  refine Nat.le_antisymm (lastIndex_le_iff.2 fun name hname n hn => ?_)
    (le_lastIndex (mem_names_set.2 (.inl rfl)) hnew)
  rcases mem_names_set.1 hname with rfl | hname
  · exact Nat.le_of_eq (Option.some.inj (hn.symm.trans hnew))
  · exact Nat.le_succ_of_le (le_lastIndex hname hn)

end

/-! ### Stored parts -/

/-- Parts may be stored in two lots. -/
theorem store_append (p : Package) (parts parts' : List (String × ByteArray)) :
    p.store (parts ++ parts') = (p.store parts).store parts' := List.foldl_append ..

/-- Setting a part that is left out concerns none of the others. -/
theorem filter_set_of_not {keep : String → Bool} {name : String} (h : keep name = false)
    (p : Package) (bytes : ByteArray) :
    (p.set name bytes).entries.filter (keep ·.1) = p.entries.filter (keep ·.1) := by
  obtain ⟨entries⟩ := p
  rw [set]
  dsimp only
  -- The part is found in its place, or it is put at the end.
  induction entries with
  | nil => simp [Keyed.set, h]
  | cons part r ih =>
    rw [Keyed.set]
    split
    · rename_i hname
      have hpart : keep part.1 = false := hname ▸ h
      rw [List.filter_cons_of_neg (by simp [hpart]), List.filter_cons_of_neg (by simp [hpart])]
    · rw [List.filter_cons, List.filter_cons, ih]

/-- A part that is new comes last. -/
theorem entries_set_of_not_mem {name : String} (h : name ∉ p.names) (bytes : ByteArray) :
    (p.set name bytes).entries = p.entries ++ [(name, bytes)] := by
  obtain ⟨entries⟩ := p
  rw [set]
  dsimp only
  rw [names] at h
  induction entries with
  | nil => rfl
  | cons part r ih =>
    obtain ⟨hne, hr⟩ := not_or.1 (List.mem_cons.not.1 h)
    rw [Keyed.set, if_neg (Ne.symm hne), ih hr, List.cons_append]

/-- What stands under other names stays as it is, in its order. -/
theorem filter_store_of_not {keep : String → Bool} (p : Package)
    {parts : List (String × ByteArray)} (h : ∀ part ∈ parts, keep part.1 = false) :
    (p.store parts).entries.filter (keep ·.1) = p.entries.filter (keep ·.1) := by
  induction parts generalizing p with
  | nil => rfl
  | cons part parts ih =>
    rw [store, List.foldl_cons, ← store,
      ih _ fun other hmem => h other (List.mem_cons_of_mem _ hmem),
      filter_set_of_not (h part List.mem_cons_self)]

/-- Neither does removing it. -/
theorem filter_remove_of_not {keep : String → Bool} {name : String} (h : keep name = false)
    (p : Package) :
    (p.remove name).entries.filter (keep ·.1) = p.entries.filter (keep ·.1) := by
  rw [remove, List.filter_filter]
  refine List.filter_congr fun part _ => ?_
  cases hkeep : keep part.1 with
  | false => rfl
  | true =>
    have hne : part.1 ≠ name := fun heq => by rw [heq, h] at hkeep; cases hkeep
    simpa using hne

/-- Removing a part takes its name away. -/
theorem names_remove (p : Package) (name : String) :
    (p.remove name).names = p.names.filter (· != name) := by
  rw [names, names, remove, List.filter_map]
  rfl

/-- Names keep their order, and new ones come last. -/
theorem names_store (p : Package) (parts : List (String × ByteArray)) :
    ∃ added, (p.store parts).names = p.names ++ added ∧ added.Nodup ∧
      ∀ name ∈ added, name ∉ p.names := by
  induction parts generalizing p with
  | nil => exact ⟨[], by simp [store]⟩
  | cons part parts ih =>
    obtain ⟨added, hnames, hnodup, hnew⟩ := ih (p.set part.1 part.2)
    rw [store, List.foldl_cons, ← store, hnames]
    -- A name that is there keeps its place; any other comes last.
    by_cases hmem : part.1 ∈ p.names
    · have hsame : (p.set part.1 part.2).names = p.names := by
        rw [names, set, Keyed.map_fst_set]
        exact if_pos hmem
      rw [hsame] at hnew ⊢
      exact ⟨added, rfl, hnodup, hnew⟩
    · have hlast : (p.set part.1 part.2).names = p.names ++ [part.1] := by
        rw [names, set, Keyed.map_fst_set]
        exact if_neg hmem
      rw [hlast] at hnew ⊢
      refine ⟨part.1 :: added, by simp, List.nodup_cons.2 ⟨fun h => ?_, hnodup⟩, ?_⟩
      · exact hnew _ h (List.mem_append_right _ (List.mem_singleton_self _))
      · exact List.forall_mem_cons.2 ⟨hmem, fun name h hname =>
          hnew name h (List.mem_append_left _ hname)⟩

end Package

end SheetTemplate
