import Mathlib.Data.List.AList

/-! Tables that lose the entries somebody no longer wants, and directories: tables whose entries
lead to something else, each to a thing of its own. -/

/-- `HashMap::retain`. -/
def AList.retain {κ : Type*} {β : κ → Type*} (t : AList β) (keep : (k : κ) → β k → Bool) :
    AList β :=
  ⟨t.entries.filter fun e => keep e.1 e.2, t.nodupKeys.sublist List.filter_sublist⟩

theorem AList.lookup_retain {κ : Type*} [DecidableEq κ] {β : κ → Type*} (t : AList β)
    (keep : (k : κ) → β k → Bool) (k : κ) (b : β k) :
    (t.retain keep).lookup k = some b ↔ t.lookup k = some b ∧ keep k b = true := by
  have hretain : (t.retain keep).lookup k = some b ↔ (⟨k, b⟩ : Sigma β) ∈ (t.retain keep).entries :=
    AList.mem_lookup_iff
  have ht : t.lookup k = some b ↔ (⟨k, b⟩ : Sigma β) ∈ t.entries := AList.mem_lookup_iff
  rw [hretain, ht]
  exact List.mem_filter

/-- What a directory has for an index is there, and no two indexes have the same. -/
structure Directory {ι α : Type*} (look : ι → Option α) (live : α → Prop) : Prop where
  live : ∀ i a, look i = some a → live a
  apart : ∀ i j a, look i = some a → look j = some a → i = j

namespace Directory

variable {ι α : Type*} {look look' : ι → Option α} {live live' : α → Prop}

theorem empty (h : ∀ i, look i = none) : Directory look live where
  live i a hi := by
    rw [h] at hi
    cases hi
  apart i j a hi hj := by
    rw [h] at hi
    cases hi

/-- Things may come to what there is. -/
theorem mono (h : Directory look live) (hlive : ∀ a, live a → live' a) : Directory look live' where
  live i a hi := hlive a (h.live i a hi)
  apart := h.apart

/-- A thing that was not there can be given to an index. -/
theorem note [DecidableEq ι] (h : Directory look live) (hlive : ∀ a, live a → live' a) {i : ι}
    {a : α} (hlook : ∀ j, look' j = if j = i then some a else look j) (hnew : ¬ live a)
    (ha : live' a) : Directory look' live' where
  live j b hj := by
    rw [hlook] at hj
    split_ifs at hj
    · cases hj
      exact ha
    · exact hlive b (h.live j b hj)
  apart j k b hj hk := by
    rw [hlook] at hj hk
    split_ifs at hj hk with hji hki hki
    · rw [hji, hki]
    · cases hj
      exact absurd (h.live k a hk) hnew
    · cases hk
      exact absurd (h.live j a hj) hnew
    · exact h.apart j k b hj hk

end Directory
