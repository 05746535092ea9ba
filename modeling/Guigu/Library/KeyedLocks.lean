import Guigu.Library.Tables
import Mathlib.Data.Finset.Card

/-! Locks that are made on demand, one for a key, counted by the clones that are alive, and evicted
when nobody but the table has one. -/

/-- The table, and of each lock the clones that are alive and whether it is held. -/
structure KeyedLocks (κ : Type*) where
  locks : AList fun _ : κ => ℕ
  strong : ℕ → ℕ
  held : ℕ → Bool
  next : ℕ

namespace KeyedLocks

variable {κ : Type*} [DecidableEq κ]

def empty : KeyedLocks κ := ⟨∅, fun _ => 0, fun _ => false, 0⟩

/-- One more clone of the lock of a key, which is made if it is not there. -/
def fetch (t : KeyedLocks κ) (key : κ) : ℕ × KeyedLocks κ :=
  match t.locks.lookup key with
  | some l => (l, { t with strong := Function.update t.strong l (t.strong l + 1) })
  | none => (t.next,
      { locks := t.locks.insert key t.next
        strong := Function.update t.strong t.next 2
        held := Function.update t.held t.next false
        next := t.next + 1 })

def lock (t : KeyedLocks κ) (l : ℕ) : KeyedLocks κ :=
  { t with held := Function.update t.held l true }

def unlock (t : KeyedLocks κ) (l : ℕ) : KeyedLocks κ :=
  { t with held := Function.update t.held l false }

def drop (t : KeyedLocks κ) (l : ℕ) : KeyedLocks κ :=
  { t with strong := Function.update t.strong l (t.strong l - 1) }

/-- The entries that nobody else has a clone of go, and their clones with them. -/
def evict (t : KeyedLocks κ) : KeyedLocks κ :=
  { t with
    locks := t.locks.retain fun _ l => decide (1 < t.strong l)
    strong := fun l =>
      if (t.locks.entries.any fun e => decide (e.2 = l)) && decide (t.strong l ≤ 1) then
        t.strong l - 1
      else t.strong l }

/-- What somebody has of a lock: a clone, and perhaps the lock itself. -/
structure Use (κ : Type*) where
  key : κ
  lock : ℕ
  owns : Bool

variable {ι : Type*} {t : KeyedLocks κ} {user : ι → Option (Use κ)}

/-- The table, the counts and the users agree. -/
structure Linked (t : KeyedLocks κ) (user : ι → Option (Use κ)) : Prop where
  tabled : ∀ i u, user i = some u → t.locks.lookup u.key = some u.lock
  separate : ∀ k k' l, t.locks.lookup k = some l → t.locks.lookup k' = some l → k = k'
  made : ∀ k l, t.locks.lookup k = some l → l < t.next
  counted : ∀ k l, t.locks.lookup k = some l →
    ∃ clones : Finset ι, (∀ i, i ∈ clones ↔ ∃ u, user i = some u ∧ u.lock = l) ∧
      t.strong l = clones.card + 1
  held : ∀ i u, user i = some u → u.owns = true → t.held u.lock = true
  alone : ∀ i j u v, user i = some u → user j = some v → u.owns = true → v.owns = true →
    u.lock = v.lock → i = j

namespace Linked

theorem empty : Linked (empty : KeyedLocks κ) (fun _ : ι => none) where
  tabled _ _ h := by cases h
  separate _ _ _ h := by cases h
  made _ _ h := by cases h
  counted _ _ h := by cases h
  held _ _ h := by cases h
  alone _ _ _ _ h := by cases h

/-- Two owners under one key are one. -/
theorem exclusive (h : Linked t user) {i j : ι} {u v : Use κ} (hi : user i = some u)
    (hj : user j = some v) (hu : u.owns = true) (hv : v.owns = true) (hkey : u.key = v.key) :
    i = j := by
  have hlock : some u.lock = some v.lock := by
    rw [← h.tabled i u hi, ← h.tabled j v hj, hkey]
  exact h.alone i j u v hi hj hu hv (Option.some.inj hlock)

/-- A lock that somebody uses has a clone outside the table. -/
theorem strong_of_user (h : Linked t user) {i : ι} {u : Use κ} (hi : user i = some u) :
    1 < t.strong u.lock := by
  obtain ⟨clones, hmem, hstrong⟩ := h.counted u.key u.lock (h.tabled i u hi)
  have hpos : 0 < clones.card := Finset.card_pos.mpr ⟨i, (hmem i).mpr ⟨u, hi, rfl⟩⟩
  omega

/-- Eviction keeps the entry of every key that is in use. -/
theorem lookup_evict (h : Linked t user) {i : ι} {u : Use κ} (hi : user i = some u) :
    t.evict.locks.lookup u.key = some u.lock :=
  (AList.lookup_retain ..).mpr ⟨h.tabled i u hi, decide_eq_true (h.strong_of_user hi)⟩

protected theorem evict (h : Linked t user) : Linked t.evict user := by
  have hkept : ∀ k l, t.evict.locks.lookup k = some l →
      t.locks.lookup k = some l ∧ 1 < t.strong l := by
    intro k l hk
    obtain ⟨hlookup, hstrong⟩ := (AList.lookup_retain ..).mp hk
    exact ⟨hlookup, of_decide_eq_true hstrong⟩
  constructor
  · exact fun i u hi => h.lookup_evict hi
  · exact fun k k' l hk hk' => h.separate k k' l (hkept k l hk).1 (hkept k' l hk').1
  · exact fun k l hk => h.made k l (hkept k l hk).1
  · intro k l hk
    obtain ⟨hlookup, hstrong⟩ := hkept k l hk
    have hsame : t.evict.strong l = t.strong l := by
      have hmany : decide (t.strong l ≤ 1) = false := decide_eq_false (by omega)
      simp only [evict, hmany, Bool.and_false, Bool.false_eq_true, if_false]
    rw [hsame]
    exact h.counted k l hlookup
  · exact h.held
  · exact h.alone

variable [DecidableEq ι]

omit [DecidableEq κ] in
/-- Whose lock is whose does not depend on who owns it. -/
private theorem update_lock {i : ι} {u : Use κ} (hi : user i = some u) (owns : Bool) (j : ι) :
    (Function.update user i (some { u with owns := owns }) j).map (fun v => (v.key, v.lock)) =
      (user j).map fun v => (v.key, v.lock) := by
  by_cases hj : j = i
  · rw [hj, Function.update_self, hi]
    rfl
  · rw [Function.update_of_ne hj]

omit [DecidableEq κ] in
/-- A user of the new table is the newcomer, or one of the old. -/
private theorem newcomer {i j : ι} {u v : Use κ}
    (hj : Function.update user i (some u) j = some v) :
    (j = i ∧ v = u) ∨ (j ≠ i ∧ user j = some v) := by
  by_cases hji : j = i
  · rw [hji, Function.update_self] at hj
    exact .inl ⟨hji, (Option.some.inj hj).symm⟩
  · rw [Function.update_of_ne hji] at hj
    exact .inr ⟨hji, hj⟩

/-- A change of who owns its lock keeps the rest, if the owners stay alone with theirs. -/
private theorem reown (h : Linked t user) {i : ι} {u : Use κ} (hi : user i = some u) (owns : Bool)
    {held' : ℕ → Bool}
    (hheld : ∀ j v, Function.update user i (some { u with owns := owns }) j = some v →
      v.owns = true → held' v.lock = true)
    (halone : ∀ j k v w, Function.update user i (some { u with owns := owns }) j = some v →
      Function.update user i (some { u with owns := owns }) k = some w → v.owns = true →
      w.owns = true → v.lock = w.lock → j = k) :
    Linked { t with held := held' } (Function.update user i (some { u with owns := owns })) where
  tabled j v hj := by
    have hmap := update_lock hi owns j
    rw [hj] at hmap
    obtain ⟨v', hv', hpair⟩ := Option.map_eq_some_iff.mp hmap.symm
    obtain ⟨hkey, hlock⟩ := Prod.mk.inj hpair
    rw [← hkey, ← hlock]
    exact h.tabled j v' hv'
  separate := h.separate
  made := h.made
  counted k l hk := by
    obtain ⟨clones, hmem, hstrong⟩ := h.counted k l hk
    refine ⟨clones, fun j => ?_, hstrong⟩
    have hmap := congrArg (Option.map Prod.snd) (update_lock hi owns j)
    rw [Option.map_map, Option.map_map] at hmap
    have hlocks : ∀ o : Option (Use κ), (∃ v, o = some v ∧ v.lock = l) ↔
        o.map (Prod.snd ∘ fun v => (v.key, v.lock)) = some l := by
      intro o
      rw [Option.map_eq_some_iff]
      rfl
    rw [hmem j, hlocks, hlocks, hmap]
  held := hheld
  alone := halone

/-- A free lock goes to somebody who has a clone of it. -/
protected theorem lock (h : Linked t user) {i : ι} {u : Use κ} (hi : user i = some u)
    (hfree : t.held u.lock = false) :
    Linked (t.lock u.lock) (Function.update user i (some { u with owns := true })) := by
  have hother : ∀ j v, j ≠ i → user j = some v → v.owns = true → v.lock ≠ u.lock := by
    intro j v _ hj hv hlock
    have hheld := h.held j v hj hv
    rw [hlock, hfree] at hheld
    cases hheld
  apply h.reown hi true
  · intro j v hj hv
    obtain ⟨-, rfl⟩ | ⟨hji, hj⟩ := newcomer hj
    · rw [Function.update_self]
    · rw [Function.update_of_ne (hother j v hji hj hv)]
      exact h.held j v hj hv
  · intro j k v w hj hk hv hw hlock
    rcases newcomer hj with ⟨rfl, rfl⟩ | ⟨hji, hj'⟩
    · rcases newcomer hk with ⟨rfl, -⟩ | ⟨hki, hk'⟩
      · rfl
      · exact absurd hlock.symm (hother k w hki hk' hw)
    · rcases newcomer hk with ⟨rfl, rfl⟩ | ⟨-, hk'⟩
      · exact absurd hlock (hother j v hji hj' hv)
      · exact h.alone j k v w hj' hk' hv hw hlock

/-- The owner gives the lock back and keeps its clone. -/
protected theorem unlock (h : Linked t user) {i : ι} {u : Use κ} (hi : user i = some u)
    (howns : u.owns = true) :
    Linked (t.unlock u.lock) (Function.update user i (some { u with owns := false })) := by
  have howner : ∀ j v, Function.update user i (some { u with owns := false }) j = some v →
      v.owns = true → j ≠ i ∧ user j = some v := by
    intro j v hj hv
    obtain ⟨-, rfl⟩ | ⟨hji, hj⟩ := newcomer hj
    · cases hv
    · exact ⟨hji, hj⟩
  apply h.reown hi false
  · intro j v hj hv
    obtain ⟨hji, hj⟩ := howner j v hj hv
    have hlock : v.lock ≠ u.lock := fun hlock => hji (h.alone j i v u hj hi hv howns hlock)
    rw [Function.update_of_ne hlock]
    exact h.held j v hj hv
  · intro j k v w hj hk hv hw hlock
    exact h.alone j k v w (howner j v hj hv).2 (howner k w hk hw).2 hv hw hlock

/-- A clone goes, and its user with it. -/
protected theorem drop (h : Linked t user) {i : ι} {u : Use κ} (hi : user i = some u) :
    Linked (t.drop u.lock) (Function.update user i none) := by
  have hother : ∀ j v, Function.update user i none j = some v → j ≠ i ∧ user j = some v := by
    intro j v hj
    by_cases hji : j = i
    · rw [hji, Function.update_self] at hj
      cases hj
    · rw [Function.update_of_ne hji] at hj
      exact ⟨hji, hj⟩
  constructor
  · exact fun j v hj => h.tabled j v (hother j v hj).2
  · exact h.separate
  · exact h.made
  · intro k l hk
    obtain ⟨clones, hmem, hstrong⟩ := h.counted k l hk
    refine ⟨clones.erase i, fun j => ?_, ?_⟩
    · rw [Finset.mem_erase, hmem j]
      by_cases hji : j = i
      · rw [hji, Function.update_self]
        simp
      · rw [Function.update_of_ne hji]
        simp [hji]
    · by_cases hl : l = u.lock
      · have hin : i ∈ clones := (hmem i).mpr ⟨u, hi, hl.symm⟩
        have hcard := Finset.card_erase_add_one hin
        have hnow : (t.drop u.lock).strong l = t.strong l - 1 := by simp [drop, hl]
        omega
      · have hout : i ∉ clones := by
          intro hin
          obtain ⟨v, hv, hlock⟩ := (hmem i).mp hin
          rw [hi] at hv
          rw [← Option.some.inj hv] at hlock
          exact hl hlock.symm
        have hnow : (t.drop u.lock).strong l = t.strong l := by simp [drop, hl]
        rw [hnow, Finset.erase_eq_of_notMem hout]
        exact hstrong
  · exact fun j v hj hv => h.held j v (hother j v hj).2 hv
  · exact fun j k v w hj hk => h.alone j k v w (hother j v hj).2 (hother k w hk).2

theorem fetch_of_some {key : κ} {l : ℕ} (hl : t.locks.lookup key = some l) :
    t.fetch key = (l, { t with strong := Function.update t.strong l (t.strong l + 1) }) := by
  rw [fetch, hl]

theorem fetch_of_none {key : κ} (hl : t.locks.lookup key = none) :
    t.fetch key = (t.next,
      { locks := t.locks.insert key t.next
        strong := Function.update t.strong t.next 2
        held := Function.update t.held t.next false
        next := t.next + 1 }) := by
  rw [fetch, hl]

/-- Somebody new gets a clone of the lock of its key. -/
protected theorem fetch (h : Linked t user) {i : ι} (hi : user i = none) (key : κ) :
    Linked (t.fetch key).2
      (Function.update user i (some ⟨key, (t.fetch key).1, false⟩)) := by
  cases hlookup : t.locks.lookup key with
  | some l =>
    rw [fetch_of_some hlookup]
    constructor
    · intro j v hj
      obtain ⟨-, rfl⟩ | ⟨-, hj⟩ := newcomer hj
      · exact hlookup
      · exact h.tabled j v hj
    · exact h.separate
    · exact h.made
    · intro k l' hk
      obtain ⟨clones, hmem, hstrong⟩ := h.counted k l' hk
      have hout : i ∉ clones := by
        intro hin
        obtain ⟨v, hv, -⟩ := (hmem i).mp hin
        rw [hi] at hv
        cases hv
      by_cases hl : l' = l
      · refine ⟨insert i clones, fun j => ?_, ?_⟩
        · rw [Finset.mem_insert, hmem j]
          by_cases hji : j = i
          · simp [hji, hl]
          · simp [hji]
        · rw [Finset.card_insert_of_notMem hout]
          simp [hl, ← hstrong]
      · refine ⟨clones, fun j => ?_, ?_⟩
        · by_cases hji : j = i
          · rw [hji, Function.update_self]
            simp [hout, Ne.symm hl]
          · rw [hmem j, Function.update_of_ne hji]
        · simp [hl, hstrong]
    · intro j v hj hv
      obtain ⟨-, rfl⟩ | ⟨-, hj⟩ := newcomer hj
      · cases hv
      · exact h.held j v hj hv
    · intro j k v w hj hk hv hw
      obtain ⟨-, rfl⟩ | ⟨-, hj⟩ := newcomer hj
      · cases hv
      · obtain ⟨-, rfl⟩ | ⟨-, hk⟩ := newcomer hk
        · cases hw
        · exact h.alone j k v w hj hk hv hw
  | none =>
    rw [fetch_of_none hlookup]
    have hold : ∀ k l, (t.locks.insert key t.next).lookup k = some l →
        (k = key ∧ l = t.next) ∨ (k ≠ key ∧ t.locks.lookup k = some l ∧ l < t.next) := by
      intro k l hk
      by_cases hkey : k = key
      · rw [hkey, AList.lookup_insert] at hk
        exact .inl ⟨hkey, (Option.some.inj hk).symm⟩
      · rw [AList.lookup_insert_ne hkey] at hk
        exact .inr ⟨hkey, hk, h.made k l hk⟩
    have hused : ∀ j v, user j = some v → v.key ≠ key ∧ v.lock < t.next := by
      intro j v hj
      have hv := h.tabled j v hj
      refine ⟨?_, h.made _ _ hv⟩
      intro hkey
      rw [hkey, hlookup] at hv
      cases hv
    constructor
    · intro j v hj
      obtain ⟨-, rfl⟩ | ⟨-, hj⟩ := newcomer hj
      · exact AList.lookup_insert _
      · exact (AList.lookup_insert_ne (hused j v hj).1).trans (h.tabled j v hj)
    · intro k k' l hk hk'
      obtain ⟨rfl, rfl⟩ | ⟨hk, hl, hlt⟩ := hold k l hk
      · obtain ⟨rfl, -⟩ | ⟨-, -, hlt⟩ := hold k' _ hk'
        · rfl
        · exact absurd hlt (lt_irrefl _)
      · obtain ⟨-, rfl⟩ | ⟨-, hl', -⟩ := hold k' l hk'
        · exact absurd hlt (lt_irrefl _)
        · exact h.separate k k' l hl hl'
    · intro k l hk
      obtain ⟨-, rfl⟩ | ⟨-, -, hlt⟩ := hold k l hk
      · exact Nat.lt_succ_self _
      · exact Nat.lt_succ_of_lt hlt
    · intro k l hk
      obtain ⟨-, rfl⟩ | ⟨-, hl, hlt⟩ := hold k l hk
      · refine ⟨{i}, fun j => ?_, ?_⟩
        · rw [Finset.mem_singleton]
          constructor
          · rintro rfl
            exact ⟨_, Function.update_self .., rfl⟩
          · rintro ⟨v, hj, hv⟩
            obtain ⟨hji, -⟩ | ⟨-, hj⟩ := newcomer hj
            · exact hji
            · exact absurd hv (hused j v hj).2.ne
        · simp
      · obtain ⟨clones, hmem, hstrong⟩ := h.counted k l hl
        refine ⟨clones, fun j => ?_, ?_⟩
        · rw [hmem j]
          by_cases hji : j = i
          · rw [hji, Function.update_self, hi]
            simp [hlt.ne']
          · rw [Function.update_of_ne hji]
        · simp [hlt.ne, hstrong]
    · intro j v hj hv
      obtain ⟨-, rfl⟩ | ⟨-, hj⟩ := newcomer hj
      · cases hv
      · exact (Function.update_of_ne (hused j v hj).2.ne _ _).trans (h.held j v hj hv)
    · intro j k v w hj hk hv hw
      obtain ⟨-, rfl⟩ | ⟨-, hj⟩ := newcomer hj
      · cases hv
      · obtain ⟨-, rfl⟩ | ⟨-, hk⟩ := newcomer hk
        · cases hw
        · exact h.alone j k v w hj hk hv hw

end Linked

end KeyedLocks
