/-!
# Fallible computations

Rules for `Except` programs. The first two read a sequence apart. The rest is
about two programs that are meant to do the same thing with their own errors and
their own representation of the result: `Mirrors f x y` says they fail together,
and succeed together with results related by `f`. It is closed under sequencing
and branching, so two parsers written side by side are compared line by line.
-/

section
variable {ε η α β γ δ : Type}

variable {x : Except ε α} {f : α → β} {y : Except η β}

theorem Except.bind_eq_ok {f : α → Except ε β} {r : β} :
    x.bind f = .ok r ↔ ∃ a, x = .ok a ∧ f a = .ok r := by
  cases x with
  | error e =>
    constructor
    · intro h; exact absurd h (by simp [Except.bind])
    intro hgv
    obtain ⟨a, h, _⟩ := hgv
    simp at h
  | ok a =>
    constructor
    · intro h; exact ⟨a, rfl, h⟩
    intro hgv
    obtain ⟨b, hb, h⟩ := hgv
    cases hb
    exact h

theorem Except.bind_of_eq_ok {f : α → Except ε β} {a : α} (h : x = .ok a) : x.bind f = f a := by
  rw [h]
  rfl

theorem Except.exists_ok_of_any (h : x.toOption.any P = true) : ∃ a, x = .ok a ∧ P a = true := by
  cases x with
  | error e => exact absurd h (by simp [Except.toOption])
  | ok a => exact ⟨a, rfl, h⟩

namespace Outcome

/-- Two computations with one verdict, the second's result the image of the first's. -/
inductive Mirrors (f : α → β) : Except ε α → Except η β → Prop where
  | ok (a : α) : Mirrors f (.ok a) (.ok (f a))
  | error (e : ε) (e' : η) : Mirrors f (.error e) (.error e')

theorem Mirrors.of_eq (h : f a = b) : Mirrors (ε := ε) (η := η) f (.ok a) (.ok b) := by
  rw [← h]
  exact .ok a

theorem Mirrors.ok_iff (h : Mirrors f x y) : y = .ok b ↔ ∃ a, x = .ok a ∧ f a = b := by
  cases h with
  | ok a =>
    constructor
    · intro h; injection h with h; exact ⟨a, rfl, h⟩
    intro hgv
    obtain ⟨a', ha, rfl⟩ := hgv
    injection ha with ha
    rw [ha]
  | error e e' =>
    constructor
    · intro h; simp at h
    intro hgv
    obtain ⟨a, ha, _⟩ := hgv
    simp at ha

theorem Mirrors.bind (h : Mirrors f x y) (hk : ∀ a, x = .ok a → Mirrors g (k a) (l (f a))) :
    Mirrors g (x.bind k) (y.bind l) := by
  cases h with
  | ok a => exact hk a rfl
  | error e e' => exact .error e e'

theorem Mirrors.ite [Decidable c] [Decidable d] (hcd : c ↔ d) (ht : c → Mirrors f x y)
    (he : ¬ c → Mirrors f x' y') :
    Mirrors f (if c then x else x') (if d then y else y') := by
  by_cases hc : c
  · rw [if_pos hc, if_pos (hcd.mp hc)]
    exact ht hc
  · rw [if_neg hc, if_neg (fun hd => hc (hcd.mpr hd))]
    exact he hc

theorem Mirrors.check [Decidable c] [Decidable d] (hcd : c ↔ d) (h : ¬ c → Mirrors f x y) :
    Mirrors f (if c then .error e else x) (if d then .error e' else y) :=
  .ite hcd (fun _ => .error e e') h

end Outcome

end
