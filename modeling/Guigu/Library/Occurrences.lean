import Mathlib.Data.List.Basic

/-! Where a list occurs in another one. Occurrences may overlap. -/
namespace Occurrences

variable {α : Type*}

/-- `pat` stands in `l` behind `i` elements. -/
def Occurs (pat l : List α) (i : ℕ) : Prop :=
  ∃ front back, l = front ++ pat ++ back ∧ front.length = i

/-- It stands there more than once, but always with its beginning inside the first occurrence. -/
def Entangled (pat l : List α) : Prop :=
  ∃ i j, i < j ∧ Occurs pat l i ∧ Occurs pat l j ∧
    ∀ k, Occurs pat l k → i ≤ k ∧ k < i + pat.length

theorem occurs_append (front pat back : List α) :
    Occurs pat (front ++ pat ++ back) front.length := ⟨front, back, rfl, rfl⟩

theorem occurs_zero {pat l : List α} : Occurs pat l 0 ↔ pat <+: l := by
  constructor
  · rintro ⟨front, back, rfl, hfront⟩
    rw [List.length_eq_zero_iff.mp hfront]
    exact List.prefix_append pat back
  · rintro ⟨back, rfl⟩
    exact occurs_append [] pat back

@[simp] theorem occurs_nil {pat : List α} {i : ℕ} : Occurs pat [] i ↔ pat = [] ∧ i = 0 := by
  constructor
  · rintro ⟨front, back, h, rfl⟩
    obtain ⟨h, -⟩ := List.append_eq_nil_iff.mp h.symm
    obtain ⟨rfl, rfl⟩ := List.append_eq_nil_iff.mp h
    exact ⟨rfl, rfl⟩
  · rintro ⟨rfl, rfl⟩
    exact occurs_append [] [] []

@[simp] theorem occurs_cons {pat l : List α} {c : α} {i : ℕ} :
    Occurs pat (c :: l) (i + 1) ↔ Occurs pat l i := by
  constructor
  · rintro ⟨front, back, h, hfront⟩
    cases front with
    | nil => cases hfront
    | cons d front =>
      obtain ⟨rfl, rfl⟩ := List.cons_eq_cons.mp h
      exact ⟨front, back, rfl, Nat.succ.inj hfront⟩
  · rintro ⟨front, back, rfl, rfl⟩
    exact ⟨c :: front, back, rfl, rfl⟩

/-- An occurrence is unique, or it is the first of several that stand one in another, if and only
if none begins behind it. -/
theorem unique_or_entangled {pat l : List α} :
    (∃! i, Occurs pat l i) ∨ Entangled pat l ↔
      ∃ i, Occurs pat l i ∧ ∀ k, Occurs pat l k → i ≤ k ∧ k < i + max pat.length 1 := by
  constructor
  · rintro (⟨i, hi, hunique⟩ | ⟨i, -, -, hi, -, hall⟩)
    · refine ⟨i, hi, fun k hk => ?_⟩
      rw [hunique k hk]
      omega
    · refine ⟨i, hi, fun k hk => ?_⟩
      have := hall k hk
      omega
  · rintro ⟨i, hi, hall⟩
    by_cases hmore : ∃ j, Occurs pat l j ∧ j ≠ i
    · obtain ⟨j, hj, hne⟩ := hmore
      have hjle := hall j hj
      refine .inr ⟨i, j, by omega, hi, hj, fun k hk => ?_⟩
      have := hall k hk
      omega
    · push Not at hmore
      exact .inl ⟨i, hi, hmore⟩

theorem Entangled.not_unique {pat l : List α} (h : Entangled pat l) :
    ¬ ∃! i, Occurs pat l i := by
  rintro ⟨k, -, hunique⟩
  obtain ⟨i, j, hlt, hi, hj, -⟩ := h
  have hik := hunique i hi
  have hjk := hunique j hj
  omega

end Occurrences
