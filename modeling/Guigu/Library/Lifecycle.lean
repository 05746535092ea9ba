import Guigu.Library.Runs
import Mathlib.Data.List.Count

/-! Things that are started, used and stopped, as one trace tells of all of them. -/
namespace Lifecycle

inductive Stage where
  | start
  | use
  | stop
  deriving DecidableEq, Repr

variable {κ : Type} [DecidableEq κ]

/-- Behind its start a thing is stopped at most once; it is not used or stopped in front of its
start, and not used behind its stop. -/
structure Disciplined (trace : List (κ × Stage)) : Prop where
  stopsOnce : ∀ k before after, trace = before ++ (k, .start) :: after →
    after.count (k, .stop) ≤ 1
  startsFirst : ∀ k stage before after, trace = before ++ (k, stage) :: after →
    stage ≠ .start → (k, .start) ∈ before
  quietBehindStop : ∀ k before after, trace = before ++ (k, .stop) :: after → (k, .use) ∉ after

theorem disciplined_nil : Disciplined ([] : List (κ × Stage)) := by
  constructor
  · intro k before after h
    simp at h
  · intro k stage before after h
    simp at h
  · intro k before after h
    simp at h

variable {trace : List (κ × Stage)} {k : κ} {stage : Stage}

theorem Disciplined.of_concat {x : κ × Stage} (h : Disciplined (trace ++ [x])) :
    Disciplined trace := by
  constructor
  · rintro k before after rfl
    have hcount := h.stopsOnce k before (after ++ [x]) (by simp)
    rw [List.count_append] at hcount
    omega
  · rintro k stage before after rfl
    exact h.startsFirst k stage before (after ++ [x]) (by simp)
  · rintro k before after rfl hmem
    exact h.quietBehindStop k before (after ++ [x]) (by simp) (List.mem_append_left _ hmem)

/-- A start may come at any time, all else only between a start and the first stop. -/
theorem disciplined_concat : Disciplined (trace ++ [(k, stage)]) ↔
    Disciplined trace ∧ (stage ≠ .start → (k, .start) ∈ trace ∧ (k, .stop) ∉ trace) := by
  constructor
  · intro h
    refine ⟨h.of_concat, fun hstage => ?_⟩
    refine ⟨h.startsFirst k stage trace [] rfl hstage, fun hstop => ?_⟩
    obtain ⟨before, after, rfl⟩ := List.append_of_mem hstop
    cases stage with
    | start => exact hstage rfl
    | use => exact h.quietBehindStop k before (after ++ [(k, .use)]) (by simp) (by simp)
    | stop =>
      have hstart := h.startsFirst k .stop before (after ++ [(k, .stop)]) (by simp) (by simp)
      obtain ⟨front, back, rfl⟩ := List.append_of_mem hstart
      have hcount := h.stopsOnce k front (back ++ (k, .stop) :: (after ++ [(k, .stop)])) (by simp)
      rw [List.count_append, List.count_cons_self, List.count_append, List.count_singleton_self]
        at hcount
      omega
  · rintro ⟨h, hlast⟩
    constructor
    · intro k' before after heq
      obtain ⟨-, -, rfl⟩ | ⟨rest, rfl, rfl⟩ := Runs.split_concat heq
      · simp
      · have hcount := h.stopsOnce k' before rest rfl
        rw [List.count_append]
        by_cases hx : (k, stage) = (k', .stop)
        · obtain ⟨rfl, rfl⟩ := Prod.mk.inj hx
          have hnot := (hlast (by simp)).2
          have hnone : rest.count (k, Stage.stop) = 0 :=
            List.count_eq_zero.mpr fun hmem => hnot (by simp [hmem])
          have hone : [(k, Stage.stop)].count (k, Stage.stop) = 1 := List.count_singleton_self
          omega
        · rw [List.count_singleton, if_neg (by simpa using hx)]
          exact hcount
    · intro k' stage' before after heq hstage
      obtain ⟨rfl, hx, -⟩ | ⟨rest, rfl, rfl⟩ := Runs.split_concat heq
      · obtain ⟨rfl, rfl⟩ := Prod.mk.inj hx
        exact (hlast hstage).1
      · exact h.startsFirst k' stage' before rest rfl hstage
    · intro k' before after heq hmem
      obtain ⟨-, -, rfl⟩ | ⟨rest, rfl, rfl⟩ := Runs.split_concat heq
      · cases hmem
      · obtain hmem | hmem := List.mem_append.mp hmem
        · exact h.quietBehindStop k' before rest rfl hmem
        · obtain ⟨rfl, rfl⟩ := Prod.mk.inj (List.mem_singleton.mp hmem)
          exact (hlast (by simp)).2 (by simp)

/-- Several things are stopped that are running. -/
theorem disciplined_stops {ks : List κ} (hnodup : ks.Nodup)
    (hrunning : ∀ k ∈ ks, (k, .start) ∈ trace ∧ (k, .stop) ∉ trace) :
    Disciplined (trace ++ ks.map (·, .stop)) ↔ Disciplined trace := by
  induction ks generalizing trace with
  | nil => rw [List.map_nil, List.append_nil]
  | cons k ks ih =>
    obtain ⟨hk, hks⟩ := List.nodup_cons.mp hnodup
    obtain ⟨hfirst, hrest⟩ := List.forall_mem_cons.mp hrunning
    rw [List.map_cons, List.append_cons, ih hks, disciplined_concat]
    · simp [hfirst]
    · intro k' hk'
      have hne : k' ≠ k := fun heq => hk (heq ▸ hk')
      simp [hrest k' hk', hne]

end Lifecycle
