import Mathlib.Logic.Basic

/-!
# Steps that may fail

Where one thing is done after the other it succeeds when both do, the second one
with what the first one gave, and fails when one of them does.

## Main statements

* `except_bind_eq_ok_iff`, `except_mapError_eq_ok_iff` — steps that only give something.
* `stateful_bind_ok_iff`, `stateful_bind_error_iff` — steps that also change a state.
-/

namespace Schematic

variable {ε σ β γ : Type}

theorem except_bind_eq_ok_iff {x : Except ε β} {f : β → Except ε γ} {z : γ} :
    x >>= f = .ok z ↔ ∃ y, x = .ok y ∧ f y = .ok z := by
  cases x with
  | error e => simp [bind, Except.bind]
  | ok y => simp [bind, Except.bind]

theorem except_mapError_eq_ok_iff {ε' : Type} {x : Except ε β} {f : ε → ε'} {z : β} :
    x.mapError f = .ok z ↔ x = .ok z := by
  cases x with
  | error e => exact ⟨nofun, nofun⟩
  | ok y =>
    change (Except.ok y : Except ε' β) = .ok z ↔ _
    rw [Except.ok.injEq, Except.ok.injEq]

section Stateful

variable {x : EStateM ε σ β} {f : β → EStateM ε σ γ} {s s' : σ}

theorem stateful_bind_of_ok {a : β} (h : x s = .ok a s') : (x >>= f) s = f a s' := by
  change EStateM.bind x f s = _
  rw [EStateM.bind, h]

theorem stateful_bind_of_error {e : ε} (h : x s = .error e s') : (x >>= f) s = .error e s' := by
  change EStateM.bind x f s = _
  rw [EStateM.bind, h]

theorem stateful_bind_ok_iff {v : γ} :
    (x >>= f) s = .ok v s' ↔ ∃ a s₁, x s = .ok a s₁ ∧ f a s₁ = .ok v s' := by
  cases hx : x s with
  | ok a s₁ =>
    rw [stateful_bind_of_ok hx]
    constructor
    · intro h; exact ⟨a, s₁, rfl, h⟩
    · rintro ⟨_, _, ⟨⟩, h⟩; exact h
  | error e s₁ => simp [stateful_bind_of_error hx]

theorem stateful_bind_error_iff {e : ε} :
    (x >>= f) s = .error e s' ↔
      x s = .error e s' ∨ ∃ a s₁, x s = .ok a s₁ ∧ f a s₁ = .error e s' := by
  cases hx : x s with
  | ok a s₁ =>
    rw [stateful_bind_of_ok hx]
    constructor
    · intro h; exact .inr ⟨a, s₁, rfl, h⟩
    · rintro (⟨⟨⟩⟩ | ⟨_, _, ⟨⟩, h⟩); exact h
  | error e s₁ => simp [stateful_bind_of_error hx]

end Stateful

end Schematic
