import TextMacros.Error

/-!
# Results that may fail

A result that went through several steps is taken apart here, one step at a time.
-/

set_option autoImplicit false

namespace TextMacros

variable {α β γ δ ε ζ : Type}

theorem map_eq_ok {x : Except ε α} {f : α → β} {b : β} :
    x.map f = .ok b ↔ ∃ a, x = .ok a ∧ f a = b := by
  cases x <;> simp [Except.map]

theorem map_eq_error {x : Except ε α} {f : α → β} {e : ε} :
    x.map f = .error e ↔ x = .error e := by
  cases x <;> simp [Except.map]

theorem mapError_eq_ok {x : Except ε α} {f : ε → ζ} {a : α} :
    x.mapError f = .ok a ↔ x = .ok a := by
  cases x with
  | ok b =>
    exact ⟨fun h => congrArg Except.ok (Except.ok.inj h),
      fun h => congrArg Except.ok (Except.ok.inj h)⟩
  | error e => exact ⟨nofun, nofun⟩

theorem bind_eq_ok {x : Except ε α} {f : α → Except ε β} {b : β} :
    x >>= f = .ok b ↔ ∃ a, x = .ok a ∧ f a = .ok b := by
  cases x <;> simp [bind, Except.bind]

/-- Two results that both succeed with related values, or both fail with
related errors. -/
inductive Agree (E : ε → ζ → Prop) (V : α → β → Prop) : Except ε α → Except ζ β → Prop where
  | ok {a : α} {b : β} (h : V a b) : Agree E V (.ok a) (.ok b)
  | error {e : ε} {f : ζ} (h : E e f) : Agree E V (.error e) (.error f)

namespace Agree
variable {E : ε → ζ → Prop} {V : α → β → Prop} {W : γ → δ → Prop}

theorem of_ok {a : α} {y : Except ζ β} (h : Agree E V (.ok a) y) : ∃ b, y = .ok b ∧ V a b := by
  cases h with
  | ok h => exact ⟨_, rfl, h⟩

theorem of_error {e : ε} {y : Except ζ β} (h : Agree E V (.error e) y) :
    ∃ f, y = .error f ∧ E e f := by
  cases h with
  | error h => exact ⟨_, rfl, h⟩

theorem map {x : Except ε α} {y : Except ζ β} (h : Agree E V x y) {f : α → γ} {g : β → δ}
    (hf : ∀ a b, V a b → W (f a) (g b)) : Agree E W (x.map f) (y.map g) := by
  cases h with
  | ok h => exact .ok (hf _ _ h)
  | error h => exact .error h

theorem bind {x : Except ε α} {y : Except ζ β} (h : Agree E V x y) {f : α → Except ε γ}
    {g : β → Except ζ δ} (hf : ∀ a b, V a b → Agree E W (f a) (g b)) :
    Agree E W (x >>= f) (y >>= g) := by
  cases h with
  | ok h => exact hf _ _ h
  | error h => exact .error h

theorem refl {E : ε → ε → Prop} {V : α → α → Prop} (hE : ∀ e, E e e) (hV : ∀ a, V a a)
    (x : Except ε α) : Agree E V x x := by
  cases x with
  | ok a => exact .ok (hV a)
  | error e => exact .error (hE e)

theorem symm {E : ε → ζ → Prop} {F : ζ → ε → Prop} (hE : ∀ d e, E d e → F e d)
    {x : Except ε α} {y : Except ζ α} (h : Agree E Eq x y) : Agree F Eq y x := by
  cases h with
  | ok h => exact .ok h.symm
  | error h => exact .error (hE _ _ h)

theorem trans {E : ε → ε → Prop} (hE : ∀ d e f, E d e → E e f → E d f) {x y z : Except ε α}
    (h : Agree E Eq x y) (h' : Agree E Eq y z) : Agree E Eq x z := by
  cases h with
  | ok h => exact h ▸ h'
  | error h =>
    obtain ⟨f, rfl, hf⟩ := h'.of_error
    exact .error (hE _ _ _ h hf)

theorem mapError_left {η : Type} {F : η → ζ → Prop} {x : Except ε α} {y : Except ζ β}
    (h : Agree E V x y) {f : ε → η} (hf : ∀ d e, E d e → F (f d) e) :
    Agree F V (x.mapError f) y := by
  cases h with
  | ok h => exact .ok h
  | error h => exact .error (hf _ _ h)

theorem mapError_right {η : Type} {F : ε → η → Prop} {x : Except ε α} {y : Except ζ β}
    (h : Agree E V x y) {f : ζ → η} (hf : ∀ d e, E d e → F d (f e)) :
    Agree F V x (y.mapError f) := by
  cases h with
  | ok h => exact .ok h
  | error h => exact .error (hf _ _ h)

end Agree

end TextMacros
