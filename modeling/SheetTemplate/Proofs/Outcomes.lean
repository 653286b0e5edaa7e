import Mathlib.Data.List.Forall2

/-!
# Steps that may fail

How a run of steps that may fail comes apart: it succeeds exactly if every step does, be they one
after another or one for each element of a list. Two runs of which each pair of steps is related
come to related results.
-/

namespace SheetTemplate

variable {ε α β : Type _}

/-- Two steps succeed if the first does and the second does with what it gave. -/
theorem bind_eq_ok {x : Except ε α} {f : α → Except ε β} {b : β} :
    (x >>= f) = .ok b ↔ ∃ a, x = .ok a ∧ f a = .ok b := by
  -- A failed first step fails the whole, and a successful one hands its result on.
  cases x with
  | error e =>
    constructor
    · intro h
      exact nomatch h
    · rintro ⟨_, h, _⟩
      exact nomatch h
  | ok a =>
    constructor
    · intro h
      exact ⟨a, rfl, h⟩
    · rintro ⟨_, hx, h⟩
      cases hx
      exact h

/-- A result that can be evaluated is there. -/
theorem exists_eq_ok {x : Except ε α} {f : α → β} {b : β} (h : x.toOption.map f = some b) :
    ∃ a, x = .ok a ∧ f a = b := by
  cases x with
  | error e => exact nomatch h
  | ok a => exact ⟨a, rfl, Option.some.inj h⟩

/-- Changing a result leaves failures alone. -/
theorem map_eq_ok {x : Except ε α} {f : α → β} {b : β} :
    x.map f = .ok b ↔ ∃ a, x = .ok a ∧ f a = b := by
  cases x <;> simp [Except.map]

/-- A step is taken for each element of a list, and succeeds for all of them. -/
theorem mapM_eq_ok {α β ε : Type} {f : α → Except ε β} {xs : List α} {ys : List β} :
    xs.mapM f = .ok ys ↔ List.Forall₂ (fun x y => f x = .ok y) xs ys := by
  -- Element by element, in step with the results.
  induction xs generalizing ys with
  | nil =>
    cases ys with
    | nil => exact ⟨fun _ => .nil, fun _ => rfl⟩
    | cons y ys => exact ⟨nofun, nofun⟩
  | cons x xs ih =>
    rw [List.mapM_cons]
    constructor
    · intro h
      obtain ⟨y, hy, h⟩ := bind_eq_ok.1 h
      obtain ⟨rest, hrest, h⟩ := bind_eq_ok.1 h
      cases h
      exact .cons hy (ih.1 hrest)
    · rintro (_ | ⟨hy, hrest⟩)
      rw [hy, ih.2 hrest]
      rfl

/-- Where two lists are compared place by place, what is in the second has its counterpart in the
first. -/
theorem exists_left_of_mem {α β : Type} {R : α → β → Prop} {l : List α} {l' : List β}
    (h : List.Forall₂ R l l') {b : β} (hb : b ∈ l') : ∃ a ∈ l, R a b := by
  induction h with
  | nil => cases hb
  | @cons a b' l l' hab _ ih =>
    rcases List.mem_cons.1 hb with rfl | hb
    · exact ⟨a, List.mem_cons_self, hab⟩
    · obtain ⟨a', ha', hab'⟩ := ih hb
      exact ⟨a', List.mem_cons_of_mem a ha', hab'⟩

/-- Results of two runs: both are there and related, or both runs fail for related reasons. -/
inductive BothOrNeither {ε ε' α α' : Type _} (E : ε → ε' → Prop) (R : α → α' → Prop) :
    Except ε α → Except ε' α' → Prop
  | ok {a : α} {a' : α'} (h : R a a') : BothOrNeither E R (.ok a) (.ok a')
  | error {e : ε} {e' : ε'} (h : E e e') : BothOrNeither E R (.error e) (.error e')

theorem BothOrNeither.self {ε α : Type _} (x : Except ε α) : BothOrNeither Eq Eq x x := by
  cases x with
  | ok a => exact .ok rfl
  | error e => exact .error rfl

theorem BothOrNeither.mono {ε ε' α α' : Type _} {E : ε → ε' → Prop} {R Q : α → α' → Prop}
    {x : Except ε α} {x' : Except ε' α'} (h : BothOrNeither E R x x')
    (hf : ∀ a a', R a a' → Q a a') : BothOrNeither E Q x x' := by
  cases h with
  | ok h => exact .ok (hf _ _ h)
  | error h => exact .error h

/-- Related steps after steps that gave related results. -/
theorem BothOrNeither.bind_of_eq {ε ε' α α' β β' : Type _} {E : ε → ε' → Prop} {R : α → α' → Prop}
    {Q : β → β' → Prop} {x : Except ε α} {x' : Except ε' α'} {f : α → Except ε β}
    {f' : α' → Except ε' β'} (h : BothOrNeither E R x x')
    (hf : ∀ a a', x = .ok a → x' = .ok a' → R a a' → BothOrNeither E Q (f a) (f' a')) :
    BothOrNeither E Q (x >>= f) (x' >>= f') := by
  cases h with
  | ok h => exact hf _ _ rfl rfl h
  | error h => exact .error h

/-- Related steps after related steps. -/
theorem BothOrNeither.bind {ε ε' α α' β β' : Type _} {E : ε → ε' → Prop} {R : α → α' → Prop}
    {Q : β → β' → Prop} {x : Except ε α} {x' : Except ε' α'} {f : α → Except ε β}
    {f' : α' → Except ε' β'} (h : BothOrNeither E R x x')
    (hf : ∀ a a', R a a' → BothOrNeither E Q (f a) (f' a')) :
    BothOrNeither E Q (x >>= f) (x' >>= f') := h.bind_of_eq fun a a' _ _ => hf a a'

/-- Changing both results keeps them related. -/
theorem BothOrNeither.map {ε ε' α α' β β' : Type _} {E : ε → ε' → Prop} {R : α → α' → Prop}
    {Q : β → β' → Prop} {x : Except ε α} {x' : Except ε' α'} {f : α → β} {f' : α' → β'}
    (h : BothOrNeither E R x x') (hf : ∀ a a', R a a' → Q (f a) (f' a')) :
    BothOrNeither E Q (x.map f) (x'.map f') := by
  cases h with
  | ok h => exact .ok (hf _ _ h)
  | error h => exact .error h

end SheetTemplate
