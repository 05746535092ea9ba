import Guigu.Library.Runs
import Mathlib.Data.List.Nodup
import Mathlib.Logic.Function.Basic

/-! A cell that is set at most once, by one of the tasks that ask for its value: one of them at a
time tries to make it, an attempt that fails or is dropped leaves the cell empty, and the next task
tries for itself. This is what `get_or_try_init` of an asynchronous `OnceCell` is documented to
do. -/

/-- Where a task stands that asks for the value. -/
inductive Asking (ν ε : Type*) where
  | idle
  /-- It waits for its turn. -/
  | waiting
  /-- It is its turn, and it makes the value. -/
  | making
  | got (value : ν)
  | failed (error : ε)
  | dropped

structure OnceCell (ν ε : Type*) where
  value : Option ν
  /-- The task whose turn it is. -/
  turn : Option ℕ
  task : ℕ → Asking ν ε
  /-- The tasks that have begun to make the value. -/
  begun : List ℕ
  /-- What came of the attempts that were not dropped. -/
  outcomes : List (ℕ × Except ε ν)

namespace OnceCell

inductive Action (ν ε : Type*) where
  | ask (i : ℕ)
  /-- A task that waits gets the value, or its turn. -/
  | wake (i : ℕ)
  | finish (i : ℕ) (outcome : Except ε ν)
  /-- The task is dropped, and what it was doing with it. -/
  | drop (i : ℕ)

variable {ν ε : Type*}

def empty : OnceCell ν ε := ⟨none, none, fun _ => .idle, [], []⟩

def put (c : OnceCell ν ε) (i : ℕ) (a : Asking ν ε) : OnceCell ν ε :=
  { c with task := Function.update c.task i a }

/-- It is the turn of the task. -/
def start (c : OnceCell ν ε) (i : ℕ) : OnceCell ν ε :=
  { c with turn := some i, begun := c.begun ++ [i], task := Function.update c.task i .making }

/-- What the task that tries comes to. -/
def settle (c : OnceCell ν ε) (i : ℕ) : Except ε ν → OnceCell ν ε
  | .ok v =>
    { c with
      value := some v
      turn := none
      outcomes := c.outcomes ++ [(i, .ok v)]
      task := Function.update c.task i (.got v) }
  | .error e =>
    { c with
      turn := none
      outcomes := c.outcomes ++ [(i, .error e)]
      task := Function.update c.task i (.failed e) }

def abandon (c : OnceCell ν ε) (i : ℕ) : OnceCell ν ε :=
  { c with turn := none, task := Function.update c.task i .dropped }

/-- One step; a step that is not possible leaves the cell as it is. -/
def step (c : OnceCell ν ε) : Action ν ε → OnceCell ν ε
  | .ask i =>
    match c.task i, c.value with
    | .idle, some v => c.put i (.got v)
    | .idle, none => c.put i .waiting
    | _, _ => c
  | .wake i =>
    match c.task i, c.value, c.turn with
    | .waiting, some v, _ => c.put i (.got v)
    | .waiting, none, none => c.start i
    | _, _, _ => c
  | .finish i outcome =>
    match c.task i with
    | .making => c.settle i outcome
    | _ => c
  | .drop i =>
    match c.task i with
    | .idle | .waiting => c.put i .dropped
    | .making => c.abandon i
    | .got _ | .failed _ | .dropped => c

@[simp] theorem put_task_self (c : OnceCell ν ε) (i : ℕ) (a : Asking ν ε) :
    (c.put i a).task i = a := Function.update_self ..

theorem put_task_of_ne (c : OnceCell ν ε) {i j : ℕ} (hj : j ≠ i) (a : Asking ν ε) :
    (c.put i a).task j = c.task j := Function.update_of_ne hj ..

@[simp] theorem start_task_self (c : OnceCell ν ε) (i : ℕ) : (c.start i).task i = .making :=
  Function.update_self ..

theorem start_task_of_ne (c : OnceCell ν ε) {i j : ℕ} (hj : j ≠ i) :
    (c.start i).task j = c.task j := Function.update_of_ne hj ..

/-- Attempts come one at a time, each of another task and none behind one that succeeded, whose
value is the value of every task that has got one; a task that has failed has failed by itself. -/
structure Sound (c : OnceCell ν ε) : Prop where
  turn : ∀ i, c.turn = some i ↔ c.task i = .making
  value_of_turn : ∀ i, c.turn = some i → c.value = none
  untried : ∀ i, c.task i = .idle ∨ c.task i = .waiting → i ∉ c.begun
  begun_of_turn : ∀ i, c.turn = some i → c.begun.getLast? = some i
  once : c.begun.Nodup
  outcomes : (c.outcomes.map Prod.fst ++ c.turn.toList).Sublist c.begun
  success : ∀ i v, (i, Except.ok v) ∈ c.outcomes → c.value = some v ∧ c.begun.getLast? = some i
  made : ∀ v, c.value = some v → ∃ i, (i, Except.ok v) ∈ c.outcomes
  got : ∀ i v, c.task i = .got v → c.value = some v
  failed : ∀ i e, c.task i = .failed e → (i, .error e) ∈ c.outcomes

namespace Sound

variable {c : OnceCell ν ε} {i : ℕ}

theorem empty : Sound (empty : OnceCell ν ε) where
  turn _ := ⟨nofun, nofun⟩
  value_of_turn _ h := by cases h
  untried _ _ := List.not_mem_nil
  begun_of_turn _ h := by cases h
  once := List.nodup_nil
  outcomes := .slnil
  success _ _ h := by cases h
  made _ h := by cases h
  got _ _ h := by cases h
  failed _ _ h := by cases h

/-- A task that is not trying goes on. -/
theorem put (h : Sound c) {a : Asking ν ε} (hi : c.task i ≠ .making) (ha : a ≠ .making)
    (huntried : a = .idle ∨ a = .waiting → i ∉ c.begun)
    (hgot : ∀ v, a = .got v → c.value = some v) (hfailed : ∀ e, a ≠ .failed e) :
    Sound (c.put i a) where
  turn j := by
    by_cases hj : j = i
    · rw [hj, put_task_self]
      show c.turn = some i ↔ _
      rw [h.turn]
      exact iff_of_false hi ha
    · rw [c.put_task_of_ne hj]
      exact h.turn j
  value_of_turn := h.value_of_turn
  untried j hj := by
    by_cases hji : j = i
    · rw [hji, put_task_self] at hj
      rw [hji]
      exact huntried hj
    · rw [c.put_task_of_ne hji] at hj
      exact h.untried j hj
  begun_of_turn := h.begun_of_turn
  once := h.once
  outcomes := h.outcomes
  success := h.success
  made := h.made
  got j v hj := by
    by_cases hji : j = i
    · rw [hji, put_task_self] at hj
      exact hgot v hj
    · rw [c.put_task_of_ne hji] at hj
      exact h.got j v hj
  failed j e hj := by
    by_cases hji : j = i
    · rw [hji, put_task_self] at hj
      exact absurd hj (hfailed e)
    · rw [c.put_task_of_ne hji] at hj
      exact h.failed j e hj

theorem start (h : Sound c) (hi : c.task i = .waiting) (hvalue : c.value = none)
    (hturn : c.turn = none) : Sound (c.start i) where
  turn j := by
    by_cases hj : j = i
    · rw [hj, start_task_self]
      exact iff_of_true rfl rfl
    · rw [c.start_task_of_ne hj, ← h.turn, hturn]
      exact iff_of_false (fun heq => hj (Option.some.inj heq).symm) nofun
  value_of_turn _ _ := hvalue
  untried j hj := by
    by_cases hji : j = i
    · rw [hji, start_task_self] at hj
      obtain hj | hj := hj
      · cases hj
      · cases hj
    · rw [c.start_task_of_ne hji] at hj
      show j ∉ c.begun ++ [i]
      rw [List.mem_append, not_or, List.mem_singleton]
      exact ⟨h.untried j hj, hji⟩
  begun_of_turn j hj := by
    rw [← hj]
    exact List.getLast?_concat
  once := List.nodup_append.mpr ⟨h.once, List.nodup_singleton i, by
    rintro a ha b hb rfl
    rw [List.mem_singleton.mp hb] at ha
    exact h.untried i (.inr hi) ha⟩
  outcomes := by
    have houtcomes := h.outcomes
    rw [hturn, Option.toList_none, List.append_nil] at houtcomes
    exact houtcomes.append (List.Sublist.refl _)
  success j v hj := by
    cases hvalue.symm.trans (h.success j v hj).1
  made v hv := by
    cases hvalue.symm.trans hv
  got j v hj := by
    by_cases hji : j = i
    · rw [hji, start_task_self] at hj
      cases hj
    · rw [c.start_task_of_ne hji] at hj
      exact h.got j v hj
  failed j e hj := by
    by_cases hji : j = i
    · rw [hji, start_task_self] at hj
      cases hj
    · rw [c.start_task_of_ne hji] at hj
      exact h.failed j e hj

/-- Only one task tries. -/
theorem not_making_of_turn (h : Sound c) (hi : c.turn = some i) {j : ℕ} (hj : j ≠ i) :
    c.task j ≠ .making := by
  intro hmaking
  rw [← h.turn, hi] at hmaking
  exact hj (Option.some.inj hmaking).symm

/-- The task that tries is done with it, whatever it comes to. -/
theorem leave (h : Sound c) {c' : OnceCell ν ε} (hi : c.task i = .making)
    (hself : c'.task i ≠ .making ∧ c'.task i ≠ .idle ∧ c'.task i ≠ .waiting)
    (hothers : ∀ j, j ≠ i → c'.task j = c.task j) (hturn' : c'.turn = none)
    (hbegun' : c'.begun = c.begun)
    (houtcomes : (c'.outcomes.map Prod.fst).Sublist (c.outcomes.map Prod.fst ++ [i]))
    (hkept : ∀ o ∈ c.outcomes, o ∈ c'.outcomes)
    (hsuccess : ∀ j v, (j, Except.ok v) ∈ c'.outcomes → c'.value = some v ∧ j = i)
    (hmade : ∀ v, c'.value = some v → ∃ j, (j, Except.ok v) ∈ c'.outcomes)
    (hgot : ∀ v, c'.task i = .got v → c'.value = some v)
    (hfailed : ∀ e, c'.task i = .failed e → (i, .error e) ∈ c'.outcomes) : Sound c' := by
  have hturn := (h.turn i).mpr hi
  have hvalue := h.value_of_turn i hturn
  constructor
  · intro j
    rw [hturn']
    refine iff_of_false nofun ?_
    by_cases hj : j = i
    · rw [hj]
      exact hself.1
    · rw [hothers j hj]
      exact h.not_making_of_turn hturn hj
  · rw [hturn']
    nofun
  · intro j hj
    rw [hbegun']
    by_cases hji : j = i
    · rw [hji] at hj
      exact absurd hj (not_or.mpr hself.2)
    · rw [hothers j hji] at hj
      exact h.untried j hj
  · rw [hturn']
    nofun
  · rw [hbegun']
    exact h.once
  · rw [hturn', hbegun', Option.toList_none, List.append_nil]
    have hbegun := h.outcomes
    rw [hturn] at hbegun
    exact houtcomes.trans hbegun
  · intro j v hj
    obtain ⟨hv, rfl⟩ := hsuccess j v hj
    rw [hbegun']
    exact ⟨hv, h.begun_of_turn j hturn⟩
  · exact hmade
  · intro j v hj
    by_cases hji : j = i
    · rw [hji] at hj
      exact hgot v hj
    · rw [hothers j hji] at hj
      cases hvalue.symm.trans (h.got j v hj)
  · intro j e hj
    by_cases hji : j = i
    · rw [hji] at hj ⊢
      exact hfailed e hj
    · rw [hothers j hji] at hj
      exact hkept _ (h.failed j e hj)

theorem no_success (h : Sound c) (hi : c.task i = .making) (j : ℕ) (v : ν) :
    (j, Except.ok v) ∉ c.outcomes := by
  intro hj
  cases (h.value_of_turn i ((h.turn i).mpr hi)).symm.trans (h.success j v hj).1

theorem settle (h : Sound c) (hi : c.task i = .making) (outcome : Except ε ν) :
    Sound (c.settle i outcome) := by
  have hnames : ∀ o : Except ε ν, ((c.outcomes ++ [(i, o)]).map Prod.fst).Sublist
      (c.outcomes.map Prod.fst ++ [i]) := by
    intro o
    rw [List.map_append]
    exact List.Sublist.refl _
  cases outcome with
  | ok v =>
    have hself : (c.settle i (.ok v)).task i = .got v := Function.update_self ..
    refine h.leave hi ?_ (fun j hj => Function.update_of_ne hj ..) rfl rfl (hnames (.ok v))
      (fun o ho => List.mem_append_left _ ho) ?_ ?_ ?_ ?_
    · rw [hself]
      exact ⟨nofun, nofun, nofun⟩
    · intro j w hj
      obtain hj | hj := List.mem_append.mp hj
      · exact absurd hj (h.no_success hi j w)
      · cases List.mem_singleton.mp hj
        exact ⟨rfl, rfl⟩
    · intro w hw
      cases hw
      exact ⟨i, List.mem_append_right _ (List.mem_singleton_self _)⟩
    · rw [hself]
      rintro w ⟨⟩
      rfl
    · rw [hself]
      nofun
  | error e =>
    have hself : (c.settle i (.error e)).task i = .failed e := Function.update_self ..
    refine h.leave hi ?_ (fun j hj => Function.update_of_ne hj ..) rfl rfl (hnames (.error e))
      (fun o ho => List.mem_append_left _ ho) ?_ ?_ ?_ ?_
    · rw [hself]
      exact ⟨nofun, nofun, nofun⟩
    · intro j w hj
      obtain hj | hj := List.mem_append.mp hj
      · exact absurd hj (h.no_success hi j w)
      · cases List.mem_singleton.mp hj
    · intro w hw
      cases (h.value_of_turn i ((h.turn i).mpr hi)).symm.trans hw
    · rw [hself]
      nofun
    · rw [hself]
      rintro e' ⟨⟩
      exact List.mem_append_right _ (List.mem_singleton_self _)

theorem abandon (h : Sound c) (hi : c.task i = .making) : Sound (c.abandon i) := by
  have hself : (c.abandon i).task i = .dropped := Function.update_self ..
  refine h.leave hi ?_ (fun j hj => Function.update_of_ne hj ..) rfl rfl
    (List.sublist_append_left _ _) (fun _ ho => ho) ?_ ?_ ?_ ?_
  · rw [hself]
    exact ⟨nofun, nofun, nofun⟩
  · exact fun j v hj => absurd hj (h.no_success hi j v)
  · intro v hv
    cases (h.value_of_turn i ((h.turn i).mpr hi)).symm.trans hv
  · rw [hself]
    nofun
  · rw [hself]
    nofun

theorem step (h : Sound c) (a : Action ν ε) : Sound (c.step a) := by
  cases a with
  | ask i =>
    simp only [OnceCell.step]
    split
    · rename_i v hi hv
      refine h.put (by rw [hi]; nofun) nofun (fun hw => ?_) ?_ nofun
      · exact h.untried i (.inl hi)
      · rintro w ⟨⟩
        exact hv
    · rename_i hi _
      exact h.put (by rw [hi]; nofun) nofun (fun _ => h.untried i (.inl hi)) nofun nofun
    · exact h
  | wake i =>
    simp only [OnceCell.step]
    split
    · rename_i v hi hv
      refine h.put (by rw [hi]; nofun) nofun (fun _ => h.untried i (.inr hi)) ?_ nofun
      rintro w ⟨⟩
      exact hv
    · rename_i hi hvalue hturn
      exact h.start hi hvalue hturn
    · exact h
  | finish i outcome =>
    simp only [OnceCell.step]
    split
    · rename_i hi
      exact h.settle hi outcome
    · exact h
  | drop i =>
    simp only [OnceCell.step]
    split
    · rename_i hi
      refine h.put (by rw [hi]; nofun) nofun ?_ nofun nofun
      exact fun _ => h.untried i (.inl hi)
    · rename_i hi
      refine h.put (by rw [hi]; nofun) nofun ?_ nofun nofun
      exact fun _ => h.untried i (.inr hi)
    · rename_i hi
      exact h.abandon hi
    all_goals exact h

/-- No two attempts succeed. -/
theorem success_unique (h : Sound c) {i j : ℕ} {v w : ν} (hi : (i, Except.ok v) ∈ c.outcomes)
    (hj : (j, Except.ok w) ∈ c.outcomes) : i = j ∧ v = w := by
  obtain ⟨hv, hlast⟩ := h.success i v hi
  obtain ⟨hw, hlast'⟩ := h.success j w hj
  exact ⟨Option.some.inj (hlast.symm.trans hlast'), Option.some.inj (hv.symm.trans hw)⟩

end Sound

end OnceCell
