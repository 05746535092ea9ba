import Mathlib.Data.Nat.Notation

/-! Runs of a system that takes one action after another: conditions on the steps of a run,
properties of the states it passes, and the invariant rule that links the two; histories. -/
namespace Runs

variable {σ α : Type*} (step : σ → α → σ)

def run (s : σ) (as : List α) : σ := as.foldl step s

/-- Every action meets the condition in the state it is taken in. -/
def Along (cond : σ → α → Prop) : σ → List α → Prop
  | _, [] => True
  | s, a :: as => cond s a ∧ Along cond (step s a) as

/-- The property holds of every state of the run, the first one included. -/
def Throughout (prop : σ → Prop) : σ → List α → Prop
  | s, [] => prop s
  | s, a :: as => prop s ∧ Throughout prop (step s a) as

instance decidableAlong {cond : σ → α → Prop} [∀ s a, Decidable (cond s a)] :
    (s : σ) → (as : List α) → Decidable (Along step cond s as)
  | _, [] => .isTrue trivial
  | s, a :: as =>
    have : Decidable (Along step cond (step s a) as) := decidableAlong (step s a) as
    inferInstanceAs (Decidable (cond s a ∧ Along step cond (step s a) as))

variable {step} {cond : σ → α → Prop} {inv prop : σ → Prop}

@[simp] theorem run_nil (s : σ) : run step s [] = s := rfl

@[simp] theorem run_cons (s : σ) (a : α) (as : List α) :
    run step s (a :: as) = run step (step s a) as := rfl

theorem run_append (s : σ) (as bs : List α) :
    run step s (as ++ bs) = run step (run step s as) bs := List.foldl_append

theorem along_append {s : σ} {as bs : List α} :
    Along step cond s (as ++ bs) ↔ Along step cond s as ∧ Along step cond (run step s as) bs := by
  induction as generalizing s with
  | nil => simp [Along]
  | cons a as ih => simp [Along, ih, and_assoc]

/-- What every permitted step preserves holds at the end of every permitted run. -/
theorem invariant (hstep : ∀ s a, inv s → cond s a → inv (step s a)) {s : σ} {as : List α}
    (h : inv s) (has : Along step cond s as) : inv (run step s as) := by
  induction as generalizing s with
  | nil => exact h
  | cons a as ih => exact ih (hstep s a h has.1) has.2

theorem along_of_forall {s : σ} {as : List α} (h : ∀ a ∈ as, ∀ s, cond s a) :
    Along step cond s as := by
  induction as generalizing s with
  | nil => trivial
  | cons a as ih =>
    obtain ⟨ha, has⟩ := List.forall_mem_cons.mp h
    exact ⟨ha s, ih has⟩

/-- And what follows from it holds all along the run. -/
theorem throughout (hstep : ∀ s a, inv s → cond s a → inv (step s a))
    (hprop : ∀ s, inv s → prop s) {s : σ} {as : List α} (h : inv s)
    (has : Along step cond s as) : Throughout step prop s as := by
  induction as generalizing s with
  | nil => exact hprop s h
  | cons a as ih => exact ⟨hprop s h, ih (hstep s a h has.1) has.2⟩

/-- What every step preserves holds all along every run. -/
theorem always (hstep : ∀ s a, inv s → inv (step s a)) (hprop : ∀ s, inv s → prop s) {s : σ}
    (h : inv s) (as : List α) : Throughout step prop s as := by
  induction as generalizing s with
  | nil => exact hprop s h
  | cons a as ih => exact ⟨hprop s h, ih (hstep s a h)⟩

/-- And every action of every run meets what follows from it. -/
theorem along_of_invariant (hstep : ∀ s a, inv s → inv (step s a))
    (hcond : ∀ s a, inv s → cond s a) {s : σ} (h : inv s) (as : List α) :
    Along step cond s as := by
  induction as generalizing s with
  | nil => trivial
  | cons a as ih => exact ⟨hcond s a h, ih (hstep s a h)⟩

/-- Conditions that agree where the invariant holds agree along every run that keeps it. -/
theorem along_congr {cond' : σ → α → Prop} (hstep : ∀ s a, inv s → inv (step s a))
    (hcond : ∀ s a, inv s → (cond s a ↔ cond' s a)) {s : σ} {as : List α} (h : inv s) :
    Along step cond s as ↔ Along step cond' s as := by
  induction as generalizing s with
  | nil => exact Iff.rfl
  | cons a as ih => exact and_congr (hcond s a h) (ih (hstep s a h))

/-- Where every step keeps the property exactly under the condition, so does every run. -/
theorem throughout_iff_along (hinv : ∀ s a, inv s → inv (step s a))
    (hstep : ∀ s a, inv s → prop s → (prop (step s a) ↔ cond s a)) {s : σ} {as : List α}
    (h : inv s) (hs : prop s) : Throughout step prop s as ↔ Along step cond s as := by
  induction as generalizing s with
  | nil => exact iff_of_true hs trivial
  | cons a as ih =>
    constructor
    · intro hrun
      have hnext : prop (step s a) := by
        cases as with
        | nil => exact hrun.2
        | cons b bs => exact hrun.2.1
      exact ⟨(hstep s a h hs).mp hnext, (ih (hinv s a h) hnext).mp hrun.2⟩
    · intro hrun
      have hnext := (hstep s a h hs).mpr hrun.1
      exact ⟨hs, (ih (hinv s a h) hnext).mpr hrun.2⟩

/-- A run with a budget: what holds while the budget lasts, when a step spends at most one of it. -/
theorem within_budget {spent : σ → ℕ} {limit : ℕ}
    (hstep : ∀ s a, inv s → spent s < limit → inv (step s a) ∧ spent (step s a) ≤ spent s + 1)
    (hprop : ∀ s, inv s → prop s) {s : σ} {as : List α} (h : inv s)
    (hroom : spent s + as.length ≤ limit) : Throughout step prop s as := by
  induction as generalizing s with
  | nil => exact hprop s h
  | cons a as ih =>
    rw [List.length_cons] at hroom
    obtain ⟨hnext, hspent⟩ := hstep s a h (by omega)
    exact ⟨hprop s h, ih hnext (by omega)⟩

/-- Where every permitted step is matched by permitted steps of another system, what the other
system keeps true is true of this one, seen through the relation. -/
theorem throughout_of_matched {τ β : Type*} {step' : τ → β → τ} {cond' : τ → β → Prop}
    {inv' : τ → Prop} {rel : σ → τ → Prop}
    (hmatch : ∀ s t a, rel s t → inv' t → cond s a →
      ∃ bs, Along step' cond' t bs ∧ rel (step s a) (run step' t bs))
    (hstep : ∀ t b, inv' t → cond' t b → inv' (step' t b))
    (hprop : ∀ s t, rel s t → inv' t → prop s) {s : σ} {t : τ} (h : rel s t) (ht : inv' t)
    {as : List α} (has : Along step cond s as) : Throughout step prop s as := by
  have hkeep : ∀ s a, (∃ t, rel s t ∧ inv' t) → cond s a → ∃ t, rel (step s a) t ∧ inv' t := by
    rintro s a ⟨t, hrel, hinv⟩ ha
    obtain ⟨bs, hbs, hrel'⟩ := hmatch s t a hrel hinv ha
    exact ⟨run step' t bs, hrel', invariant hstep hinv hbs⟩
  exact throughout hkeep (fun s ⟨t, hrel, hinv⟩ => hprop s t hrel hinv) ⟨t, h, ht⟩ has

theorem Throughout.last {s : σ} {as : List α} (h : Throughout step prop s as) :
    prop (run step s as) := by
  induction as generalizing s with
  | nil => exact h
  | cons a as ih => exact ih h.2

/-! ### Histories, which grow at their end -/

/-- An entry of a longer history is the last one or stands in front of it. -/
theorem split_concat {xs before after : List α} {x y : α} (h : xs ++ [x] = before ++ y :: after) :
    before = xs ∧ y = x ∧ after = [] ∨ ∃ rest, after = rest ++ [x] ∧ xs = before ++ y :: rest := by
  obtain rfl | ⟨rest, z, rfl⟩ := List.eq_nil_or_concat after
  · obtain ⟨rfl, hx⟩ := List.append_inj' h rfl
    exact .inl ⟨rfl, (List.cons.inj hx).1.symm, rfl⟩
  · rw [List.concat_eq_append, ← List.cons_append, ← List.append_assoc] at h
    obtain ⟨rfl, hx⟩ := List.append_inj' h rfl
    exact .inr ⟨rest, by rw [List.concat_eq_append, hx], rfl⟩

end Runs
