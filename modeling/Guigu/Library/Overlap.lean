import Guigu.Library.Interleave
import Mathlib.Data.List.InsertIdx
import Mathlib.Data.List.Nodup

/-! Steps under the keys of their tasks: who took which step, and whose steps lie between the steps
of another. -/
namespace Interleave

variable {ε ρ : Type*}

/-- The steps under the key `k`, in their order. -/
def stepsOf (labelled : List (ℕ × ε)) (k : ℕ) : List ε :=
  (labelled.filter fun l => l.1 = k).map Prod.snd

/-- A step of `j` lies between two steps of `i`. -/
def Overlap (labelled : List (ℕ × ε)) (i j : ℕ) : Prop :=
  i ≠ j ∧ ∃ a b c, [(i, a), (j, b), (i, c)].Sublist labelled

/-- The steps belong to the tasks: each task takes its own in order, and only shared tasks
overlap. -/
structure Attributed (shared : ℕ → Prop) (tasks : List (Task ε ρ)) (steps : List ε)
    (labelled : List (ℕ × ε)) : Prop where
  steps : labelled.map Prod.snd = steps
  own : ∀ t ∈ tasks, stepsOf labelled t.key = t.steps
  keys : ∀ l ∈ labelled, ∃ t ∈ tasks, t.key = l.1
  apart : ∀ i j, Overlap labelled i j → shared i ∧ shared j

variable {shared : ℕ → Prop} {tasks more : List (Task ε ρ)} {steps rest : List ε}
  {labelled labelled' : List (ℕ × ε)}

@[simp] theorem stepsOf_cons (l : ℕ × ε) (k : ℕ) :
    stepsOf (l :: labelled) k =
      if l.1 = k then l.2 :: stepsOf labelled k else stepsOf labelled k := by
  unfold stepsOf
  rw [List.filter_cons]
  by_cases h : l.1 = k <;> simp [h]

theorem stepsOf_append (k : ℕ) :
    stepsOf (labelled ++ labelled') k = stepsOf labelled k ++ stepsOf labelled' k := by
  unfold stepsOf
  rw [List.filter_append, List.map_append]

theorem stepsOf_eq_nil {k : ℕ} (h : ∀ l ∈ labelled, l.1 ≠ k) : stepsOf labelled k = [] := by
  unfold stepsOf
  rw [List.map_eq_nil_iff, List.filter_eq_nil_iff]
  exact fun l hl heq => h l hl (of_decide_eq_true heq)

/-- A task with its key on every step. -/
def labels (t : Task ε ρ) : List (ℕ × ε) := t.steps.map fun e => (t.key, e)

theorem stepsOf_labels (t : Task ε ρ) : stepsOf (labels t) t.key = t.steps := by
  unfold stepsOf labels
  rw [List.filter_eq_self.mpr (by simp), List.map_map]
  exact List.map_id _

theorem attributed_nil : Attributed shared ([] : List (Task ε ρ)) [] [] where
  steps := rfl
  own := List.forall_mem_nil _
  keys := List.forall_mem_nil _
  apart := by
    rintro i j ⟨-, a, b, c, h⟩
    cases h

/-- A task that runs alone overlaps with nothing. -/
theorem map_snd_labels (t : Task ε ρ) : (labels t).map Prod.snd = t.steps := by
  unfold labels
  rw [List.map_map]
  exact List.map_id _

theorem attributed_single (t : Task ε ρ) : Attributed shared [t] t.steps (labels t) where
  steps := map_snd_labels t
  own := by
    intro u hu
    rw [List.mem_singleton.mp hu, stepsOf_labels]
  keys := by
    intro l hl
    obtain ⟨e, -, rfl⟩ := List.mem_map.mp hl
    exact ⟨t, List.mem_singleton_self t, rfl⟩
  apart := by
    rintro i j ⟨hij, a, b, c, h⟩
    have hkey : ∀ l ∈ labels t, l.1 = t.key := by
      intro l hl
      obtain ⟨e, -, rfl⟩ := List.mem_map.mp hl
      rfl
    have hi := hkey (i, a) (h.subset (by simp))
    have hj := hkey (j, b) (h.subset (by simp))
    exact absurd (hi.trans hj.symm) hij

/-- One after the other, tasks overlap as they did before. -/
theorem Attributed.append (h : Attributed shared tasks steps labelled)
    (h' : Attributed shared more rest labelled')
    (hkeys : ∀ t ∈ tasks, ∀ u ∈ more, t.key ≠ u.key) :
    Attributed shared (tasks ++ more) (steps ++ rest) (labelled ++ labelled') where
  steps := by rw [List.map_append, h.steps, h'.steps]
  own := by
    intro t ht
    rw [stepsOf_append]
    rcases List.mem_append.mp ht with ht | ht
    · have hnone : stepsOf labelled' t.key = [] := by
        refine stepsOf_eq_nil fun l hl heq => ?_
        obtain ⟨u, hu, hkey⟩ := h'.keys l hl
        exact hkeys t ht u hu (heq.symm.trans hkey.symm)
      rw [h.own t ht, hnone, List.append_nil]
    · have hnone : stepsOf labelled t.key = [] := by
        refine stepsOf_eq_nil fun l hl heq => ?_
        obtain ⟨u, hu, hkey⟩ := h.keys l hl
        exact hkeys u hu t ht (hkey.trans heq)
      rw [h'.own t ht, hnone, List.nil_append]
  keys := by
    intro l hl
    rcases List.mem_append.mp hl with hl | hl
    · obtain ⟨t, ht, hkey⟩ := h.keys l hl
      exact ⟨t, List.mem_append_left _ ht, hkey⟩
    · obtain ⟨t, ht, hkey⟩ := h'.keys l hl
      exact ⟨t, List.mem_append_right _ ht, hkey⟩
  apart := by
    rintro i j ⟨hij, a, b, c, hsub⟩
    -- the two steps of `i` are on the same side, and so is what lies between them
    have hsame : ∀ x ∈ labelled, ∀ y ∈ labelled', x.1 ≠ y.1 := by
      intro x hx y hy heq
      obtain ⟨t, ht, hkt⟩ := h.keys x hx
      obtain ⟨u, hu, hku⟩ := h'.keys y hy
      exact hkeys t ht u hu (hkt.trans (heq.trans hku.symm))
    obtain ⟨front, back, hsplit, hfront, hback⟩ := List.sublist_append_iff.mp hsub
    cases front with
    | nil =>
      rw [List.nil_append] at hsplit
      exact h'.apart i j ⟨hij, a, b, c, hsplit ▸ hback⟩
    | cons x front =>
      obtain ⟨rfl, hsplit⟩ := List.cons.inj hsplit
      have hx := hfront.subset List.mem_cons_self
      rcases back.eq_nil_or_concat with rfl | ⟨back, y, rfl⟩
      · rw [List.append_nil] at hsplit
        exact h.apart i j ⟨hij, a, b, c, hsplit ▸ hfront⟩
      · have hy : y = (i, c) := by
          have hlast := congrArg List.getLast? hsplit
          rw [List.concat_eq_append, ← List.append_assoc, List.getLast?_concat] at hlast
          exact (Option.some.inj hlast).symm
        exact absurd (congrArg Prod.fst hy).symm (hsame _ hx y (hback.subset (by simp)))

/-! ### Taking turns -/

/-- A task whose steps carry its key. -/
def labelTask (t : Task ε ρ) : Task (ℕ × ε) ρ := ⟨t.key, labels t, t.result⟩

/-- The keys make no difference to who is picked. -/
theorem run_labelTask (picks : List ℕ) (ts : List (Task ε ρ)) :
    (run picks (ts.map labelTask)).1.map Prod.snd = (run picks ts).1 := by
  have hsteps (t : Task ε ρ) : (labelTask t).steps.map Prod.snd = t.steps := map_snd_labels t
  induction picks generalizing ts with
  | nil =>
    show ((ts.map labelTask).flatMap Task.steps).map Prod.snd = ts.flatMap Task.steps
    rw [List.flatMap_map, List.map_flatMap]
    simp only [hsteps]
  | cons pick picks ih =>
    unfold run
    rw [List.getElem?_map]
    cases hpick : ts[pick]? with
    | none => exact ih ts
    | some t =>
      obtain ⟨key, steps, result⟩ := t
      cases steps with
      | nil =>
        show (run picks ((ts.map labelTask).eraseIdx pick)).1.map Prod.snd = _
        rw [List.eraseIdx_map]
        exact ih _
      | cons e es =>
        show e :: (run picks ((ts.map labelTask).set pick (labelTask ⟨key, es, result⟩))).1.map
          Prod.snd = _
        rw [← List.map_set]
        exact congrArg (e :: ·) (ih _)

theorem key_of_mem_run {picks : List ℕ} {ts : List (Task ε ρ)} {l : ℕ × ε}
    (h : l ∈ (run picks (ts.map labelTask)).1) : ∃ t ∈ ts, t.key = l.1 := by
  have hmem := (run_steps picks (ts.map labelTask)).mem_iff.mp h
  obtain ⟨_, hlabel, hl⟩ := List.mem_flatMap.mp hmem
  obtain ⟨t, ht, rfl⟩ := List.mem_map.mp hlabel
  obtain ⟨e, -, rfl⟩ := List.mem_map.mp hl
  exact ⟨t, ht, rfl⟩

/-- Every task takes its own steps in order, whatever the schedule. -/
theorem stepsOf_run (picks : List ℕ) {ts : List (Task ε ρ)} (hnd : (ts.map Task.key).Nodup)
    {t : Task ε ρ} (ht : t ∈ ts) :
    stepsOf (run picks (ts.map labelTask)).1 t.key = t.steps := by
  induction picks generalizing ts t with
  | nil =>
    show stepsOf ((ts.map labelTask).flatMap Task.steps) t.key = t.steps
    rw [List.flatMap_map]
    induction ts with
    | nil => cases ht
    | cons u ts ih =>
      rw [List.map_cons, List.nodup_cons] at hnd
      rw [List.flatMap_cons, stepsOf_append]
      rcases List.mem_cons.mp ht with rfl | ht
      · have hrest : stepsOf (ts.flatMap fun t => (labelTask t).steps) t.key = [] := by
          refine stepsOf_eq_nil fun l hl heq => ?_
          obtain ⟨u, hu, hlu⟩ := List.mem_flatMap.mp hl
          obtain ⟨e, -, rfl⟩ := List.mem_map.mp hlu
          exact hnd.1 (List.mem_map.mpr ⟨u, hu, heq⟩)
        rw [hrest, List.append_nil]
        exact stepsOf_labels t
      · have hfront : stepsOf (labelTask u).steps t.key = [] := by
          refine stepsOf_eq_nil fun l hl heq => ?_
          obtain ⟨e, -, rfl⟩ := List.mem_map.mp hl
          exact hnd.1 (List.mem_map.mpr ⟨t, ht, heq.symm⟩)
        rw [hfront, List.nil_append]
        exact ih hnd.2 ht
  | cons pick picks ih =>
    unfold run
    rw [List.getElem?_map]
    cases hpick : ts[pick]? with
    | none => exact ih hnd ht
    | some u =>
      have hperm := perm_cons_eraseIdx hpick
      have hnd' : (u.key :: (ts.eraseIdx pick).map Task.key).Nodup :=
        (hperm.map Task.key).nodup_iff.mpr hnd
      obtain ⟨hfresh, hndrest⟩ := List.nodup_cons.mp hnd'
      have hu := List.mem_cons.mp (hperm.mem_iff.mpr ht)
      obtain ⟨key, steps, result⟩ := u
      cases steps with
      | nil =>
        show stepsOf (run picks ((ts.map labelTask).eraseIdx pick)).1 t.key = t.steps
        rw [List.eraseIdx_map]
        rcases hu with rfl | hu
        · refine stepsOf_eq_nil fun l hl heq => ?_
          obtain ⟨v, hv, hkey⟩ := key_of_mem_run hl
          exact hfresh (List.mem_map.mpr ⟨v, hv, hkey.trans heq⟩)
        · exact ih hndrest hu
      | cons e es =>
        have hlt : pick < ts.length := (List.getElem?_eq_some_iff.mp hpick).1
        have hset := List.set_perm_cons_eraseIdx hlt (⟨key, es, result⟩ : Task ε ρ)
        have hndset : ((ts.set pick ⟨key, es, result⟩).map Task.key).Nodup :=
          (hset.map Task.key).nodup_iff.mpr hnd'
        show stepsOf ((key, e) :: (run picks
          ((ts.map labelTask).set pick (labelTask ⟨key, es, result⟩))).1) t.key = t.steps
        rw [← List.map_set, stepsOf_cons]
        rcases hu with rfl | hu
        · rw [if_pos rfl]
          exact congrArg (e :: ·)
            (ih hndset (t := ⟨key, es, result⟩) (hset.mem_iff.mpr List.mem_cons_self))
        · rw [if_neg fun heq => hfresh (List.mem_map.mpr ⟨t, hu, heq.symm⟩)]
          exact ih hndset (hset.mem_iff.mpr (List.mem_cons_of_mem _ hu))

/-- Shared tasks may take turns. -/
theorem attributed_run (picks : List ℕ) {ts : List (Task ε ρ)} (hnd : (ts.map Task.key).Nodup)
    (hshared : ∀ t ∈ ts, shared t.key) :
    Attributed shared ts (run picks ts).1 (run picks (ts.map labelTask)).1 where
  steps := run_labelTask picks ts
  own := fun _ ht => stepsOf_run picks hnd ht
  keys := fun _ hl => key_of_mem_run hl
  apart := by
    rintro i j ⟨-, a, b, c, hsub⟩
    obtain ⟨t, ht, hi⟩ := key_of_mem_run (hsub.subset (a := (i, a)) (by simp))
    obtain ⟨u, hu, hj⟩ := key_of_mem_run (hsub.subset (a := (j, b)) (by simp))
    obtain rfl : t.key = i := hi
    obtain rfl : u.key = j := hj
    exact ⟨hshared t ht, hshared u hu⟩

end Interleave
