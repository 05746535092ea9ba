import Guigu.Library.AbsolutePath
import Guigu.Library.KeyedLocks
import Guigu.Library.Runs

/-! The queue that lets one task at a time change a file: a lock for every normalized path. -/
namespace Guigu.Tools

open UnixPath

/-- At this many entries `acquire` evicts the entries that are not in use. -/
def PRUNE_THRESHOLD : ℕ := 1024

def normalize (currentDir : Option (List Char)) (path : List Char) : List Char :=
  (absolute currentDir path).getD path

/-- The key of a path in the table of locks. -/
def lockKey (currentDir : Option (List Char)) (path : List Char) : List Component :=
  pathComponents (normalize currentDir path)

/-- Where a call of `acquire` stands, and behind it the guard it gives out. -/
inductive Acquire where
  | idle
  /-- It has a clone of the lock, and waits for it. -/
  | waiting (key : List Component) (lock : ℕ)
  /-- It has the lock, and waits for the lock of the file between processes. -/
  | filing (key : List Component) (lock : ℕ)
  /-- The guard is out. -/
  | guarding (key : List Component) (lock : ℕ)
  /-- The lock is given back; the clone goes next. -/
  | releasing (key : List Component) (lock : ℕ)
  | over
  deriving DecidableEq

def Acquire.use : Acquire → Option (KeyedLocks.Use (List Component))
  | .idle | .over => none
  | .waiting key lock | .releasing key lock => some ⟨key, lock, false⟩
  | .filing key lock | .guarding key lock => some ⟨key, lock, true⟩

structure FileMutationQueue where
  locks : KeyedLocks (List Component)
  fileLockEnabled : Bool
  call : ℕ → Acquire
  nextCall : ℕ

/-- What a task does next. -/
inductive QueueAction where
  | acquire (path : List Char)
  /-- The mutex is granted to a call that waits. -/
  | lockOwned (call : ℕ)
  /-- `FileLock::lock_exclusive` comes back. -/
  | fileLocked (call : ℕ) (ok : Bool)
  /-- The future of a call is dropped. -/
  | cancel (call : ℕ)
  | dropGuard (call : ℕ)
  | dropClone (call : ℕ)
  | prune
  deriving DecidableEq

namespace FileMutationQueue

def start (fileLockEnabled : Bool) : FileMutationQueue :=
  ⟨.empty, fileLockEnabled, fun _ => .idle, 0⟩

def pruneLocked (table : KeyedLocks (List Component)) : KeyedLocks (List Component) := table.evict

def prune (s : FileMutationQueue) : FileMutationQueue := { s with locks := pruneLocked s.locks }

def setCall (s : FileMutationQueue) (i : ℕ) (c : Acquire) : FileMutationQueue :=
  { s with call := Function.update s.call i c }

/-- The part of `acquire` under the lock of the table. -/
def acquire (currentDir : Option (List Char)) (s : FileMutationQueue) (path : List Char) :
    FileMutationQueue :=
  let key := lockKey currentDir path
  let table :=
    if PRUNE_THRESHOLD ≤ s.locks.locks.entries.length then pruneLocked s.locks else s.locks
  { s with locks := (table.fetch key).2, nextCall := s.nextCall + 1 }.setCall s.nextCall
    (.waiting key (table.fetch key).1)

/-- One step of some task; a step that is not possible leaves everything as it is. -/
def step (currentDir : Option (List Char)) (s : FileMutationQueue) :
    QueueAction → FileMutationQueue
  | .acquire path => s.acquire currentDir path
  | .lockOwned i =>
    match s.call i with
    | .waiting key lock =>
      if s.locks.held lock then s
      else { s with locks := s.locks.lock lock }.setCall i
        (if s.fileLockEnabled then .filing key lock else .guarding key lock)
    | _ => s
  | .fileLocked i ok =>
    match s.call i with
    | .filing key lock =>
      if ok then s.setCall i (.guarding key lock)
      else { s with locks := s.locks.unlock lock }.setCall i (.releasing key lock)
    | _ => s
  | .cancel i =>
    match s.call i with
    | .waiting _ lock => { s with locks := s.locks.drop lock }.setCall i .over
    | .filing key lock => { s with locks := s.locks.unlock lock }.setCall i (.releasing key lock)
    | _ => s
  | .dropGuard i =>
    match s.call i with
    | .guarding key lock => { s with locks := s.locks.unlock lock }.setCall i (.releasing key lock)
    | _ => s
  | .dropClone i =>
    match s.call i with
    | .releasing _ lock => { s with locks := s.locks.drop lock }.setCall i .over
    | _ => s
  | .prune => s.prune

/-- A guard of the path is out. -/
def Guards (s : FileMutationQueue) (i : ℕ) (key : List Component) : Prop :=
  ∃ lock, s.call i = .guarding key lock

/-- A path has one guard at most. -/
def Exclusive (s : FileMutationQueue) : Prop :=
  ∀ i j key, s.Guards i key → s.Guards j key → i = j

/-- Pruning leaves the lock of a path with a holder or a waiter where it is. -/
def PruneSpares (s : FileMutationQueue) : Prop :=
  ∀ i key lock,
    s.call i = .guarding key lock ∨ s.call i = .waiting key lock ∨ s.call i = .filing key lock →
    s.locks.locks.lookup key = some lock ∧ s.prune.locks.locks.lookup key = some lock

/-- What the calls have of the locks is what the table knows of it. -/
structure Sound (s : FileMutationQueue) : Prop where
  linked : s.locks.Linked (Acquire.use ∘ s.call)
  begun : ∀ i, s.nextCall ≤ i → s.call i = .idle

namespace Sound

variable {s : FileMutationQueue} {i : ℕ}

theorem start (fileLockEnabled : Bool) : Sound (start fileLockEnabled) where
  linked := .empty
  begun _ _ := rfl

/-- A call that has begun goes on, and the locks with it. -/
theorem setCall (h : Sound s) {c : Acquire} {locks : KeyedLocks (List Component)}
    (hi : s.call i ≠ .idle)
    (hlinked : locks.Linked (Function.update (Acquire.use ∘ s.call) i c.use)) :
    Sound ({ s with locks := locks }.setCall i c) where
  linked := by
    rw [FileMutationQueue.setCall, Function.comp_update]
    exact hlinked
  begun j hj := by
    have hji : j ≠ i := by
      rintro rfl
      exact hi (h.begun j hj)
    exact (Function.update_of_ne hji ..).trans (h.begun j hj)

theorem acquire (h : Sound s) (currentDir : Option (List Char)) (path : List Char) :
    Sound (s.acquire currentDir path) where
  linked := by
    have htable : KeyedLocks.Linked
        (if PRUNE_THRESHOLD ≤ s.locks.locks.entries.length then pruneLocked s.locks else s.locks)
        (Acquire.use ∘ s.call) := by
      split_ifs
      · exact h.linked.evict
      · exact h.linked
    have hnew : (Acquire.use ∘ s.call) s.nextCall = none := by
      rw [Function.comp_apply, h.begun _ le_rfl]
      rfl
    rw [FileMutationQueue.acquire, FileMutationQueue.setCall, Function.comp_update]
    exact htable.fetch hnew _
  begun j hj := by
    have hji : j ≠ s.nextCall := by
      rintro rfl
      exact absurd hj (Nat.not_succ_le_self _)
    exact (Function.update_of_ne hji ..).trans (h.begun j ((Nat.le_succ _).trans hj))

/-- The lock is given back by a call that has it. -/
theorem unlock (h : Sound s) {key : List Component} {lock : ℕ}
    (hi : s.call i = .filing key lock ∨ s.call i = .guarding key lock) :
    Sound ({ s with locks := s.locks.unlock lock }.setCall i (.releasing key lock)) := by
  have huse : (Acquire.use ∘ s.call) i = some ⟨key, lock, true⟩ := by
    rcases hi with hi | hi
    · rw [Function.comp_apply, hi]; rfl
    · rw [Function.comp_apply, hi]; rfl
  apply h.setCall
  · rcases hi with hi | hi
    · rw [hi]; exact Acquire.noConfusion
    · rw [hi]; exact Acquire.noConfusion
  · exact h.linked.unlock huse rfl

/-- The clone is given back by a call that has nothing else. -/
theorem drop (h : Sound s) {key : List Component} {lock : ℕ}
    (hi : s.call i = .waiting key lock ∨ s.call i = .releasing key lock) :
    Sound ({ s with locks := s.locks.drop lock }.setCall i .over) := by
  have huse : (Acquire.use ∘ s.call) i = some ⟨key, lock, false⟩ := by
    rcases hi with hi | hi
    · rw [Function.comp_apply, hi]; rfl
    · rw [Function.comp_apply, hi]; rfl
  apply h.setCall
  · rcases hi with hi | hi
    · rw [hi]; exact Acquire.noConfusion
    · rw [hi]; exact Acquire.noConfusion
  · exact h.linked.drop huse

theorem step (h : Sound s) (currentDir : Option (List Char)) (a : QueueAction) :
    Sound (s.step currentDir a) := by
  cases a with
  | acquire path => exact h.acquire currentDir path
  | lockOwned i =>
    simp only [FileMutationQueue.step]
    split
    · rename_i key lock hi
      have hidle : s.call i ≠ .idle := by rw [hi]; exact Acquire.noConfusion
      have huse : (Acquire.use ∘ s.call) i = some ⟨key, lock, false⟩ := by
        rw [Function.comp_apply, hi]; rfl
      split_ifs with hheld hfile
      · exact h
      · exact h.setCall hidle (h.linked.lock huse (eq_false_of_ne_true hheld))
      · exact h.setCall hidle (h.linked.lock huse (eq_false_of_ne_true hheld))
    · exact h
  | fileLocked i ok =>
    simp only [FileMutationQueue.step]
    split
    · rename_i key lock hi
      split_ifs
      · have hsame : (Acquire.use ∘ s.call) i = (Acquire.guarding key lock).use := by
          rw [Function.comp_apply, hi]; rfl
        apply h.setCall
        · rw [hi]; exact Acquire.noConfusion
        · rw [← hsame, Function.update_eq_self]
          exact h.linked
      · exact h.unlock (.inl hi)
    · exact h
  | cancel i =>
    simp only [FileMutationQueue.step]
    split
    · rename_i hi
      exact h.drop (.inl hi)
    · rename_i hi
      exact h.unlock (.inl hi)
    · exact h
  | dropGuard i =>
    simp only [FileMutationQueue.step]
    split
    · rename_i hi
      exact h.unlock (.inr hi)
    · exact h
  | dropClone i =>
    simp only [FileMutationQueue.step]
    split
    · rename_i hi
      exact h.drop (.inr hi)
    · exact h
  | prune => exact ⟨h.linked.evict, h.begun⟩

theorem use_of_guards (_h : Sound s) {key : List Component} (hi : s.Guards i key) :
    ∃ lock, (Acquire.use ∘ s.call) i = some ⟨key, lock, true⟩ := by
  obtain ⟨lock, hi⟩ := hi
  exact ⟨lock, by rw [Function.comp_apply, hi]; rfl⟩

theorem exclusive (h : Sound s) : s.Exclusive := by
  intro i j key hi hj
  obtain ⟨_, hi⟩ := h.use_of_guards hi
  obtain ⟨_, hj⟩ := h.use_of_guards hj
  exact h.linked.exclusive hi hj rfl rfl rfl

theorem pruneSpares (h : Sound s) : s.PruneSpares := by
  intro i key lock hi
  have huse : ∃ owns, (Acquire.use ∘ s.call) i = some ⟨key, lock, owns⟩ := by
    rcases hi with hi | hi | hi
    · exact ⟨true, by rw [Function.comp_apply, hi]; rfl⟩
    · exact ⟨false, by rw [Function.comp_apply, hi]; rfl⟩
    · exact ⟨true, by rw [Function.comp_apply, hi]; rfl⟩
  obtain ⟨owns, hu⟩ := huse
  exact ⟨h.linked.tabled i _ hu, h.linked.lookup_evict hu⟩

end Sound

@[simp] theorem setCall_call (s : FileMutationQueue) (i : ℕ) (c : Acquire) :
    (s.setCall i c).call = Function.update s.call i c := rfl

/-- A guard stays out until it is dropped. -/
theorem guarding_step {s : FileMutationQueue} (h : Sound s) (currentDir : Option (List Char))
    {i : ℕ} {key : List Component} {lock : ℕ} (hi : s.call i = .guarding key lock)
    {a : QueueAction} (ha : a ≠ .dropGuard i) :
    (s.step currentDir a).call i = .guarding key lock := by
  have hother : ∀ {j : ℕ} {c : Acquire}, s.call j ≠ .guarding key lock →
      Function.update s.call j c i = .guarding key lock := by
    intro j c hj
    have hij : i ≠ j := by
      rintro rfl
      exact hj hi
    rw [Function.update_of_ne hij, hi]
  cases a with
  | acquire path =>
    refine hother ?_
    rw [h.begun _ le_rfl]
    exact Acquire.noConfusion
  | lockOwned j =>
    simp only [step]
    split
    · rename_i hj
      split_ifs
      · exact hi
      · exact hother (by rw [hj]; exact Acquire.noConfusion)
      · exact hother (by rw [hj]; exact Acquire.noConfusion)
    · exact hi
  | fileLocked j ok =>
    simp only [step]
    split
    · rename_i hj
      split_ifs
      · exact hother (by rw [hj]; exact Acquire.noConfusion)
      · exact hother (by rw [hj]; exact Acquire.noConfusion)
    · exact hi
  | cancel j | dropClone j =>
    simp only [step]
    split
    all_goals first
      | exact hi
      | exact hother (by rw [‹s.call j = _›]; exact Acquire.noConfusion)
  | dropGuard j =>
    simp only [step]
    split
    · have hij : i ≠ j := fun hij => ha (hij ▸ rfl)
      exact (Function.update_of_ne hij ..).trans hi
    · exact hi
  | prune => exact hi

theorem nextCall_step {s : FileMutationQueue} {currentDir : Option (List Char)}
    {a : QueueAction} (ha : ∀ path, a ≠ .acquire path) :
    (s.step currentDir a).nextCall = s.nextCall := by
  cases a with
  | acquire path => exact absurd rfl (ha path)
  | prune => rfl
  | lockOwned j | fileLocked j ok | cancel j | dropGuard j | dropClone j =>
    simp only [step]
    split
    all_goals try split_ifs
    all_goals rfl

/-- A guard is for the path its call was made with. -/
theorem guarding_of_step {s : FileMutationQueue} (currentDir : Option (List Char))
    {a : QueueAction} (ha : ∀ path, a ≠ .acquire path) {i : ℕ} {key : List Component}
    (hi : ((s.step currentDir a).call i).use.map (·.key) = some key) :
    (s.call i).use.map (·.key) = some key := by
  have hother : ∀ {j : ℕ} {c : Acquire}, (∀ k, c.use.map (·.key) = some k →
      (s.call j).use.map (·.key) = some k) →
      (Function.update s.call j c i).use.map (·.key) = some key →
      (s.call i).use.map (·.key) = some key := by
    intro j c hj hc
    by_cases hij : i = j
    · rw [hij, Function.update_self] at hc
      rw [hij]
      exact hj key hc
    · rwa [Function.update_of_ne hij] at hc
  cases a with
  | acquire path => exact absurd rfl (ha path)
  | prune => exact hi
  | lockOwned j | fileLocked j ok | cancel j | dropGuard j | dropClone j =>
    simp only [step] at hi
    split at hi
    all_goals try split_ifs at hi
    all_goals first
      | exact hi
      | exact hother (by rw [‹s.call j = _›]; simp [Acquire.use]) hi

/-- Whatever the tasks do, a path has one guard at most, and pruning spares the paths in use. -/
theorem guarded_throughout (currentDir : Option (List Char)) (fileLockEnabled : Bool)
    (as : List QueueAction) :
    Runs.Throughout (step currentDir) (fun s => s.Exclusive ∧ s.PruneSpares)
      (start fileLockEnabled) as :=
  Runs.always (fun _ a h => h.step currentDir a) (fun _ h => ⟨h.exclusive, h.pruneSpares⟩)
    (Sound.start fileLockEnabled) as

end FileMutationQueue

end Guigu.Tools
