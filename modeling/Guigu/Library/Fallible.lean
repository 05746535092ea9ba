import Mathlib.Init

/-! When a computation that can fail succeeds. -/

theorem Except.map_eq_ok {ε α β : Type*} {x : Except ε α} {f : α → β} {b : β} :
    x.map f = .ok b ↔ ∃ a, x = .ok a ∧ f a = b := by
  cases x with
  | error e => simp only [Except.map, reduceCtorEq, false_and, exists_false]
  | ok a => simp only [Except.map, Except.ok.injEq, exists_eq_left']

theorem Except.bind_eq_ok {ε : Type} {α β : Type} {x : Except ε α} {f : α → Except ε β} {b : β} :
    x >>= f = .ok b ↔ ∃ a, x = .ok a ∧ f a = .ok b := by
  cases x with
  | error e => simp only [bind, Except.bind, reduceCtorEq, false_and, exists_false]
  | ok a => simp only [bind, Except.bind, Except.ok.injEq, exists_eq_left']

theorem Except.ok_bind {ε : Type} {α β : Type} (a : α) (f : α → Except ε β) :
    (Except.ok a >>= f) = f a := rfl

theorem Except.mapError_ok {ε ε' α : Type*} (f : ε → ε') (a : α) :
    (Except.ok a).mapError f = .ok a := rfl

theorem Except.mapError_eq_ok {ε ε' α : Type*} {x : Except ε α} {f : ε → ε'} {a : α} :
    x.mapError f = .ok a ↔ x = .ok a := by
  cases x with
  | ok b => simp only [mapError_ok, Except.ok.injEq]
  | error e =>
    constructor
    · intro h
      cases h
    · intro h
      cases h
