import Mathlib.Data.List.Sort

/-! Sorting by a key that no two elements share: the result does not depend on the order in which
the elements come. -/
namespace KeyOrder

variable {α κ : Type*} [LinearOrder κ] (key : α → κ)

def sort (l : List α) : List α := l.mergeSort fun a b => decide (key a ≤ key b)

variable {key} {l l' : List α}

theorem sort_perm (l : List α) : (sort key l).Perm l := List.mergeSort_perm _ _

@[simp] theorem mem_sort {a : α} : a ∈ sort key l ↔ a ∈ l := (sort_perm l).mem_iff

theorem sort_ascending (h : (l.map key).Nodup) :
    (sort key l).Pairwise fun a b => key a < key b := by
  have hsorted : (sort key l).Pairwise fun a b => key a ≤ key b := by
    have htrans : ∀ a b c : α, decide (key a ≤ key b) = true → decide (key b ≤ key c) = true →
        decide (key a ≤ key c) = true := by
      intro a b c hab hbc
      rw [decide_eq_true_eq] at *
      exact hab.trans hbc
    have htotal : ∀ a b : α, (decide (key a ≤ key b) || decide (key b ≤ key a)) = true := by
      intro a b
      rw [Bool.or_eq_true, decide_eq_true_eq, decide_eq_true_eq]
      exact le_total _ _
    exact (List.pairwise_mergeSort htrans htotal l).imp fun hab => of_decide_eq_true hab
  have hne : (sort key l).Pairwise fun a b => key a ≠ key b :=
    List.pairwise_map.mp (((sort_perm l).map key).nodup_iff.mpr h)
  exact hsorted.imp₂ (fun a b hle hne => lt_of_le_of_ne hle hne) hne

/-- Elements in ascending order are in the one order there is. -/
theorem eq_of_ascending (hperm : l.Perm l') (h : l.Pairwise fun a b => key a < key b)
    (h' : l'.Pairwise fun a b => key a < key b) : l = l' :=
  hperm.eq_of_pairwise (fun _ _ _ _ hab hba => absurd (hab.trans hba) (lt_irrefl _)) h h'

theorem sort_eq_of_perm (h : (l.map key).Nodup) (hperm : l.Perm l') :
    sort key l = sort key l' :=
  eq_of_ascending ((sort_perm l).trans (hperm.trans (sort_perm l').symm)) (sort_ascending h)
    (sort_ascending ((hperm.map key).nodup_iff.mp h))

end KeyOrder
