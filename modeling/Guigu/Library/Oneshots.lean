import Guigu.Library.Tables

/-! One-shot channels: a table files the senders by key, the receivers wait outside of it. -/

/-- A one-shot channel, as its receiver sees it. -/
inductive Oneshot (β : Type*) where
  | open
  | sent (value : β)
  /-- The sender is gone. -/
  | dropped

structure Oneshots (κ β : Type*) where
  entries : AList fun _ : κ => ℕ
  channel : ℕ → Oneshot β

namespace Oneshots

variable {κ β : Type*} [DecidableEq κ]

def empty : Oneshots κ β := ⟨∅, fun _ => .open⟩

/-- The sender of a new channel is filed; one that was filed under the key is dropped. -/
def insert (t : Oneshots κ β) (k : κ) (i : ℕ) : Oneshots κ β where
  entries := t.entries.insert k i
  channel :=
    match t.entries.lookup k with
    | some j => Function.update (Function.update t.channel j .dropped) i .open
    | none => Function.update t.channel i .open

/-- The senders that are picked leave the table, and come to what is picked for them. -/
def settle (t : Oneshots κ β) (pick : κ → Option (Oneshot β)) : Oneshots κ β where
  entries := t.entries.retain fun k _ => (pick k).isNone
  channel i :=
    match t.entries.entries.find? fun e => decide (e.2 = i) && (pick e.1).isSome with
    | some e => (pick e.1).getD (t.channel i)
    | none => t.channel i

/-- `remove`, and the value is sent. -/
def resolve (t : Oneshots κ β) (k : κ) (value : β) : Oneshots κ β :=
  t.settle fun k' => if k' = k then some (.sent value) else none

/-- `remove`, and the sender is dropped. -/
def remove (t : Oneshots κ β) (k : κ) : Oneshots κ β :=
  t.settle fun k' => if k' = k then some .dropped else none

def drain (t : Oneshots κ β) : Oneshots κ β := t.settle fun _ => some .dropped

@[simp] theorem channel_insert_self (t : Oneshots κ β) (k : κ) (i : ℕ) :
    (t.insert k i).channel i = .open := by
  cases hlookup : t.entries.lookup k with
  | none => simp [insert, hlookup]
  | some j => simp [insert, hlookup]

theorem channel_insert_of_ne (t : Oneshots κ β) (k : κ) {i j : ℕ} (hji : j ≠ i) :
    (t.insert k i).channel j =
      if t.entries.lookup k = some j then .dropped else t.channel j := by
  cases hlookup : t.entries.lookup k with
  | none => simp [insert, hlookup, hji]
  | some j' => simp [insert, hlookup, hji, Function.update_apply, eq_comm]

theorem lookup_settle {t : Oneshots κ β} {pick : κ → Option (Oneshot β)} {k : κ} {i : ℕ} :
    (t.settle pick).entries.lookup k = some i ↔
      t.entries.lookup k = some i ∧ pick k = none := by
  rw [settle, AList.lookup_retain, Option.isNone_iff_eq_none]

/-- A channel stays as it is, or its sender was in the table and was picked. -/
theorem channel_settle (t : Oneshots κ β) (pick : κ → Option (Oneshot β)) (i : ℕ) :
    ((t.settle pick).channel i = t.channel i ∧
        ∀ k, t.entries.lookup k = some i → pick k = none) ∨
      ∃ k o, t.entries.lookup k = some i ∧ pick k = some o ∧ (t.settle pick).channel i = o := by
  simp only [settle]
  cases hfind : t.entries.entries.find? fun e => decide (e.2 = i) && (pick e.1).isSome with
  | none =>
    refine .inl ⟨rfl, fun k hk => ?_⟩
    have hnot := List.find?_eq_none.mp hfind ⟨k, i⟩ (AList.mem_lookup_iff.mp hk)
    simpa using hnot
  | some e =>
    have he := List.find?_some hfind
    obtain ⟨hi, hpick⟩ := (Bool.and_eq_true _ _).mp he
    obtain ⟨o, ho⟩ := Option.isSome_iff_exists.mp hpick
    have hmem : t.entries.lookup e.1 = some e.2 :=
      AList.mem_lookup_iff.mpr (List.mem_of_find?_eq_some hfind)
    refine .inr ⟨e.1, o, ?_, ho, ?_⟩
    · rw [hmem, of_decide_eq_true hi]
    · simp only [ho, Option.getD_some]

/-- Every open channel has its sender in the table, under the key its owner has filed it with, and
the table has no other. -/
structure Filed (t : Oneshots κ β) (key : ℕ → Option κ) : Prop where
  entry : ∀ k i, t.entries.lookup k = some i → key i = some k ∧ t.channel i = .open
  filed : ∀ k i, key i = some k → t.channel i = .open → t.entries.lookup k = some i

namespace Filed

variable {t : Oneshots κ β} {key : ℕ → Option κ}

theorem empty : Filed (empty : Oneshots κ β) fun _ => none where
  entry _ _ h := by cases h
  filed _ _ h := by cases h

protected theorem insert (h : Filed t key) {i : ℕ} (hi : key i = none) (k : κ) :
    Filed (t.insert k i) (Function.update key i (some k)) := by
  have hnot : ∀ k', t.entries.lookup k' ≠ some i := by
    intro k' hk'
    have hkey := (h.entry k' i hk').1
    rw [hi] at hkey
    cases hkey
  constructor
  · intro k' j hj
    by_cases hk : k' = k
    · rw [hk, Oneshots.insert, AList.lookup_insert] at hj
      rw [← Option.some.inj hj, Function.update_self, hk]
      exact ⟨rfl, channel_insert_self t k i⟩
    · rw [Oneshots.insert, AList.lookup_insert_ne hk] at hj
      have hji : j ≠ i := by
        rintro rfl
        exact hnot k' hj
      obtain ⟨hkey, hopen⟩ := h.entry k' j hj
      have hkept : t.entries.lookup k ≠ some j := by
        intro hlookup
        have hkey' := (h.entry k j hlookup).1
        rw [hkey] at hkey'
        exact hk (Option.some.inj hkey')
      rw [Function.update_of_ne hji, channel_insert_of_ne t k hji, if_neg hkept]
      exact ⟨hkey, hopen⟩
  · intro k' j hkey hopen
    by_cases hji : j = i
    · rw [hji, Function.update_self] at hkey
      rw [hji, ← Option.some.inj hkey]
      exact AList.lookup_insert _
    · rw [Function.update_of_ne hji] at hkey
      rw [channel_insert_of_ne t k hji] at hopen
      split_ifs at hopen with hlost
      have hlookup := h.filed k' j hkey hopen
      have hk : k' ≠ k := by
        rintro rfl
        exact hlost hlookup
      exact (AList.lookup_insert_ne hk).trans hlookup

/-- Settled channels are settled for good. -/
protected theorem settle (h : Filed t key) {pick : κ → Option (Oneshot β)}
    (hpick : ∀ k o, pick k = some o → o ≠ .open) : Filed (t.settle pick) key := by
  constructor
  · intro k i hk
    obtain ⟨hlookup, hnone⟩ := lookup_settle.mp hk
    obtain ⟨hkey, hopen⟩ := h.entry k i hlookup
    refine ⟨hkey, ?_⟩
    rcases channel_settle t pick i with ⟨hsame, -⟩ | ⟨k', o, hk', ho, -⟩
    · exact hsame.trans hopen
    · have hkk : some k' = some k := (h.entry k' i hk').1.symm.trans hkey
      rw [Option.some.inj hkk, hnone] at ho
      cases ho
  · intro k i hkey hopen
    rcases channel_settle t pick i with ⟨hsame, hnone⟩ | ⟨k', o, -, ho, hchannel⟩
    · have hlookup := h.filed k i hkey (hsame.symm.trans hopen)
      exact lookup_settle.mpr ⟨hlookup, hnone k hlookup⟩
    · exact absurd (hchannel.symm.trans hopen) (hpick k' o ho)

theorem resolve (h : Filed t key) (k : κ) (value : β) : Filed (t.resolve k value) key := by
  apply h.settle
  intro k' o ho
  split_ifs at ho
  rw [← Option.some.inj ho]
  nofun

theorem remove (h : Filed t key) (k : κ) : Filed (t.remove k) key := by
  apply h.settle
  intro k' o ho
  split_ifs at ho
  rw [← Option.some.inj ho]
  nofun

theorem drain (h : Filed t key) : Filed t.drain key := by
  apply h.settle
  intro k' o ho
  rw [← Option.some.inj ho]
  nofun

/-- A key whose sender is gone can be forgotten. -/
theorem forget (h : Filed t key) {i : ℕ} (hi : t.channel i ≠ .open) :
    Filed t (Function.update key i none) := by
  constructor
  · intro k j hk
    obtain ⟨hkey, hopen⟩ := h.entry k j hk
    have hji : j ≠ i := by
      rintro rfl
      exact hi hopen
    exact ⟨(Function.update_of_ne hji ..).trans hkey, hopen⟩
  · intro k j hkey hopen
    have hji : j ≠ i := by
      rintro rfl
      exact hi hopen
    rw [Function.update_of_ne hji] at hkey
    exact h.filed k j hkey hopen

/-- A drained table leaves no channel open. -/
theorem channel_drain (h : Filed t key) {k : κ} {i : ℕ} (hi : key i = some k) :
    t.drain.channel i ≠ .open := by
  intro hopen
  have hlookup := h.drain.filed k i hi hopen
  cases (lookup_settle.mp hlookup).2

end Filed

end Oneshots
