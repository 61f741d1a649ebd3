import Mathlib.Logic.Basic

/-! Runs of actions that carry a state and may fail: how a run of a sequence falls into runs of its
parts. -/

namespace Treewalk

section
variable {ε σ α β : Type} {x : EStateM ε σ α} {f : α → EStateM ε σ β} {s t : σ}

theorem bind_of_ok {a : α} (h : x s = .ok a t) : (x >>= f) s = f a t := by
  simp [bind, EStateM.bind, h]

theorem bind_of_error {e : ε} (h : x s = .error e t) : (x >>= f) s = .error e t := by
  simp [bind, EStateM.bind, h]

/-- A sequence succeeds if both of its parts do. -/
theorem bind_eq_ok {b : β} :
    (x >>= f) s = .ok b t ↔ ∃ a r, x s = .ok a r ∧ f a r = .ok b t := by
  constructor
  · intro h
    cases hx : x s with
    | ok a r => exact ⟨a, r, rfl, by rwa [bind_of_ok hx] at h⟩
    | error e r => rw [bind_of_error hx] at h; cases h
  · rintro ⟨a, r, hx, hf⟩
    rw [bind_of_ok hx, hf]

/-- Two sequences run alike if their first parts do, and then their rests on what comes out. -/
theorem bind_eq_bind {y : EStateM ε σ α} {g : α → EStateM ε σ β} (h : x s = y s)
    (hrest : ∀ a r, y s = .ok a r → f a r = g a r) : (x >>= f) s = (y >>= g) s := by
  cases hy : y s with
  | ok a r => rw [bind_of_ok (h.trans hy), bind_of_ok hy, hrest a r hy]
  | error e r => rw [bind_of_error (h.trans hy), bind_of_error hy]

theorem map_eq_ok {g : α → β} {b : β} :
    (g <$> x) s = .ok b t ↔ ∃ a, x s = .ok a t ∧ g a = b := by
  simp only [Functor.map, EStateM.map]
  constructor
  · intro h
    cases hx : x s with
    | ok a r => rw [hx] at h; cases h; exact ⟨a, rfl, rfl⟩
    | error e r => rw [hx] at h; cases h
  · rintro ⟨a, hx, rfl⟩
    rw [hx]

@[simp] theorem pure_apply (a : α) : (pure a : EStateM ε σ α) s = .ok a s := rfl

@[simp] theorem throw_apply (e : ε) : (throw e : EStateM ε σ α) s = .error e s := rfl

@[simp] theorem get_apply : (get : EStateM ε σ σ) s = .ok s s := rfl

@[simp] theorem modify_apply (g : σ → σ) : (modify g : EStateM ε σ PUnit) s = .ok ⟨⟩ (g s) := rfl

@[simp] theorem modifyGet_apply (g : σ → α × σ) :
    (modifyGet g : EStateM ε σ α) s = .ok (g s).1 (g s).2 := rfl

end

end Treewalk
