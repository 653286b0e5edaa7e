/-!
# Keyed lists

A list of pairs, in which the first pair with a key gives its value. `set` changes the value where
the key stands and adds a new key at the end, so that keys keep their order.
-/

namespace SheetTemplate.Keyed

/-- Sets the value of a key, at its first place or at the end. -/
def set (key : String) (value : α) : List (String × α) → List (String × α)
  | [] => [(key, value)]
  | (k, v) :: r => if k = key then (k, value) :: r else (k, v) :: set key value r

/-- The value that is set is found. -/
@[simp]
theorem lookup_set_self (key : String) (value : α) (l : List (String × α)) :
    (set key value l).lookup key = some value := by
  induction l with
  | nil => simp [set]
  | cons p r ih =>
    obtain ⟨k, v⟩ := p
    by_cases hk : k = key
    · simp [set, hk]
    · have hne : (key == k) = false := beq_eq_false_iff_ne.2 (Ne.symm hk)
      simp [set, hk, List.lookup_cons, hne, ih]

/-- Other keys keep their values. -/
theorem lookup_set_of_ne {key other : String} (h : other ≠ key) (value : α)
    (l : List (String × α)) : (set key value l).lookup other = l.lookup other := by
  induction l with
  | nil => simp [set, List.lookup_cons, beq_eq_false_iff_ne.2 h]
  | cons p r ih =>
    obtain ⟨k, v⟩ := p
    by_cases hk : k = key
    · have hne : (other == k) = false := beq_eq_false_iff_ne.2 (hk ▸ h)
      rw [set, if_pos hk, List.lookup_cons, List.lookup_cons, hne]
    · simp [set, hk, List.lookup_cons, ih]

/-- The last of two values that a key is given remains. -/
@[simp]
theorem set_set (key : String) (value value' : α) (l : List (String × α)) :
    set key value' (set key value l) = set key value' l := by
  induction l with
  | nil => simp [set]
  | cons p r ih =>
    obtain ⟨k, v⟩ := p
    by_cases hk : k = key
    · simp [set, hk]
    · simp [set, hk, ih]

/-- A key may be given the value that it has. -/
theorem set_of_lookup {key : String} {value : α} {l : List (String × α)}
    (h : l.lookup key = some value) : set key value l = l := by
  induction l with
  | nil => cases h
  | cons p r ih =>
    obtain ⟨k, v⟩ := p
    by_cases hk : k = key
    · subst hk
      simp_all [set]
    · have hne : (key == k) = false := beq_eq_false_iff_ne.2 (Ne.symm hk)
      rw [List.lookup_cons, hne] at h
      rw [set, if_neg hk, ih h]

/-- A value that is replaced later might as well not have been there, whatever is set meanwhile. -/
theorem set_set_of_ne {key other : String} (h : key ≠ other) (value between last : α)
    (l : List (String × α)) :
    set key last (set other between (set key value l)) = set other between (set key last l) := by
  induction l with
  | nil => simp [set, h]
  | cons p r ih =>
    obtain ⟨k, v⟩ := p
    by_cases hk : k = key
    · simp [set, hk, h]
    · by_cases ho : k = other
      · simp [set, ho, Ne.symm h]
      · simp [set, hk, ho, ih]

/-- Keys keep their order, and a new one comes last. -/
theorem map_fst_set (key : String) (value : α) (l : List (String × α)) :
    (set key value l).map Prod.fst =
      if key ∈ l.map Prod.fst then l.map Prod.fst else l.map Prod.fst ++ [key] := by
  induction l with
  | nil => simp [set]
  | cons p r ih =>
    obtain ⟨k, v⟩ := p
    by_cases hk : k = key
    · simp [set, hk]
    · simp only [set, hk, if_false, List.map_cons, ih, List.mem_cons, Ne.symm hk, false_or]
      split <;> simp

end SheetTemplate.Keyed
