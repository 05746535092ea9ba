import Mathlib.Data.List.Perm.Basic
import Mathlib.Data.List.Sort

/-! Tasks that take turns on one thread: whatever the schedule, every task takes all its steps
and gives its result once, and sorting by the keys undoes the order of completion. -/
namespace Interleave

variable {ε ρ : Type*}

/-- A task with the steps it has left and the result it ends with. -/
structure Task (ε ρ : Type*) where
  key : ℕ
  steps : List ε
  result : ρ

/-- The schedule picks a task: it takes a step or, having none left, completes. A pick of no task
is skipped, and the tasks that remain at the end of the schedule are run to their end. -/
def run : List ℕ → List (Task ε ρ) → List ε × List (ℕ × ρ)
  | [], ts => (ts.flatMap Task.steps, ts.map fun t => (t.key, t.result))
  | pick :: picks, ts =>
    match ts[pick]? with
    | none => run picks ts
    | some t =>
      match t.steps with
      | [] =>
        let r := run picks (ts.eraseIdx pick)
        (r.1, (t.key, t.result) :: r.2)
      | e :: es =>
        let r := run picks (ts.set pick { t with steps := es })
        (e :: r.1, r.2)

/-- Results in the order of their keys. -/
def sortByKey (pairs : List (ℕ × ρ)) : List (ℕ × ρ) := pairs.mergeSort fun a b => a.1 ≤ b.1

theorem perm_cons_eraseIdx {α : Type*} {l : List α} {i : ℕ} {a : α} (h : l[i]? = some a) :
    (a :: l.eraseIdx i).Perm l := by
  obtain ⟨hi, rfl⟩ := List.getElem?_eq_some_iff.mp h
  exact List.getElem_cons_eraseIdx_perm hi

theorem run_steps (picks : List ℕ) (ts : List (Task ε ρ)) :
    (run picks ts).1.Perm (ts.flatMap Task.steps) := by
  induction picks generalizing ts with
  | nil => exact .refl _
  | cons pick picks ih =>
    unfold run
    cases hpick : ts[pick]? with
    | none => exact ih ts
    | some t =>
      have hts := (perm_cons_eraseIdx hpick).flatMap_right Task.steps
      rw [List.flatMap_cons] at hts
      cases hsteps : t.steps with
      | nil =>
        simp only [hsteps, List.nil_append] at hts ⊢
        exact (ih _).trans hts
      | cons e es =>
        simp only [hsteps] at hts ⊢
        have hlt : pick < ts.length := (List.getElem?_eq_some_iff.mp hpick).1
        have hset :=
          (List.set_perm_cons_eraseIdx hlt { t with steps := es }).flatMap_right Task.steps
        exact (((ih _).trans hset).cons e).trans hts

theorem run_results (picks : List ℕ) (ts : List (Task ε ρ)) :
    (run picks ts).2.Perm (ts.map fun t => (t.key, t.result)) := by
  induction picks generalizing ts with
  | nil => exact .refl _
  | cons pick picks ih =>
    unfold run
    cases hpick : ts[pick]? with
    | none => exact ih ts
    | some t =>
      have hts := (perm_cons_eraseIdx hpick).map fun t => (t.key, t.result)
      cases hsteps : t.steps with
      | nil =>
        simp only [hsteps]
        exact ((ih _).cons _).trans hts
      | cons e es =>
        have hlt : pick < ts.length := (List.getElem?_eq_some_iff.mp hpick).1
        have hset := (List.set_perm_cons_eraseIdx hlt { t with steps := es }).map
          fun t => (t.key, t.result)
        simp only [hsteps]
        exact ((ih _).trans hset).trans hts

/-- The results of `f` under their own positions, from `i` on. -/
def keyed (i : ℕ) : List ρ → List (ℕ × ρ)
  | [] => []
  | r :: rs => (i, r) :: keyed (i + 1) rs

theorem le_of_mem_keyed {i : ℕ} {rs : List ρ} {p : ℕ × ρ} (h : p ∈ keyed i rs) : i ≤ p.1 := by
  induction rs generalizing i with
  | nil => cases h
  | cons r rs ih =>
    rcases List.mem_cons.mp h with rfl | h
    · exact le_refl _
    · have := ih h
      omega

theorem keyed_pairwise (i : ℕ) (rs : List ρ) :
    (keyed i rs).Pairwise fun a b => a.1 < b.1 := by
  induction rs generalizing i with
  | nil => exact .nil
  | cons r rs ih =>
    refine .cons (fun p hp => ?_) (ih _)
    have := le_of_mem_keyed hp
    show i < p.1
    omega

theorem eq_of_key_eq {i : ℕ} {rs : List ρ} {p q : ℕ × ρ} (hp : p ∈ keyed i rs)
    (hq : q ∈ keyed i rs) (h : p.1 = q.1) : p = q := by
  induction rs generalizing i with
  | nil => cases hp
  | cons r rs ih =>
    rcases List.mem_cons.mp hp with rfl | hp' <;> rcases List.mem_cons.mp hq with rfl | hq'
    · rfl
    · have := le_of_mem_keyed hq'
      simp only at h
      omega
    · have := le_of_mem_keyed hp'
      simp only at h
      omega
    · exact ih hp' hq'

theorem map_snd_keyed (i : ℕ) (rs : List ρ) : (keyed i rs).map Prod.snd = rs := by
  induction rs generalizing i with
  | nil => rfl
  | cons r rs ih => exact congrArg (r :: ·) (ih _)

/-- Sorting puts the results of tasks keyed by position back in place. -/
theorem sortByKey_perm {pairs : List (ℕ × ρ)} {i : ℕ} {rs : List ρ}
    (h : pairs.Perm (keyed i rs)) : sortByKey pairs = keyed i rs := by
  have hkeys := keyed_pairwise i rs
  have hsorted : (sortByKey pairs).Pairwise fun a b => a.1 ≤ b.1 := by
    have := @List.pairwise_mergeSort (ℕ × ρ) (fun a b => decide (a.1 ≤ b.1))
      (fun a b c hab hbc => by simp only [decide_eq_true_eq] at *; omega)
      (fun a b => by simp only [Bool.or_eq_true, decide_eq_true_eq]; omega) pairs
    exact this.imp fun hab => of_decide_eq_true hab
  have hperm : (sortByKey pairs).Perm (keyed i rs) :=
    (List.mergeSort_perm pairs fun a b => decide (a.1 ≤ b.1)).trans h
  exact hperm.eq_of_pairwise (fun a b ha hb hab hba =>
    eq_of_key_eq (hperm.mem_iff.mp ha) hb (le_antisymm hab hba)) hsorted
      (hkeys.imp fun hab => hab.le)

end Interleave
