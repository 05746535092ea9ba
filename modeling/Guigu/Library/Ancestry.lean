import Guigu.Library.Lineage
import Mathlib.Logic.Relation
import Mathlib.Order.WellFoundedSet

/-! Logs of tree nodes by what can be checked of them: identifiers, parents, and cycles. -/
namespace Lineage

variable {ε ι : Type*} (id : ε → ι) (parent : ε → Option ι)

/-- An entry with the identifier `i` names `p` as its parent. -/
def ParentOf (log : List ε) (i p : ι) : Prop := ∃ e ∈ log, id e = i ∧ parent e = some p

/-- Identifiers are not repeated, there is at most one root, parents are there, and nothing is
above itself. -/
structure WellFormed (log : List ε) : Prop where
  nodup : (log.map id).Nodup
  oneRoot : log.countP (fun e => (parent e).isNone) ≤ 1
  parents : ∀ e ∈ log, ∀ p ∈ parent e, p ∈ log.map id
  acyclic : ∀ i, ¬ Relation.TransGen (ParentOf id parent log) i i

variable {id parent} {log log' : List ε}

theorem ParentOf.congr (h : ∀ e, e ∈ log ↔ e ∈ log') :
    ParentOf id parent log = ParentOf id parent log' := by
  unfold ParentOf
  simp only [h]

theorem WellFormed.perm (h : WellFormed id parent log) (hperm : log.Perm log') :
    WellFormed id parent log' := by
  refine ⟨(hperm.map id).nodup_iff.mp h.nodup, hperm.countP_eq _ ▸ h.oneRoot, ?_, ?_⟩
  · intro e he p hp
    exact (hperm.map id).mem_iff.mp (h.parents e (hperm.mem_iff.mpr he) p hp)
  · rw [← ParentOf.congr fun e => hperm.mem_iff]
    exact h.acyclic

/-- At most one entry of a kind, counted. -/
theorem countP_le_one_iff {α : Type*} {l : List α} (hnd : l.Nodup) (p : α → Bool) :
    l.countP p ≤ 1 ↔ ∀ x ∈ l, ∀ y ∈ l, p x = true → p y = true → x = y := by
  rw [List.countP_eq_length_filter]
  constructor
  · intro h x hx y hy hpx hpy
    have hx' := List.mem_filter.mpr ⟨hx, hpx⟩
    have hy' := List.mem_filter.mpr ⟨hy, hpy⟩
    match hl : l.filter p with
    | [] =>
      rw [hl] at hx'
      cases hx'
    | [z] =>
      rw [hl, List.mem_singleton] at hx' hy'
      exact hx'.trans hy'.symm
    | _ :: _ :: _ =>
      rw [hl] at h
      simp at h
  · intro h
    have hnd' := hnd.filter p
    match hl : l.filter p with
    | [] => exact Nat.zero_le _
    | [_] => exact le_rfl
    | x :: y :: _ =>
      have hx : x ∈ l.filter p := by rw [hl]; exact List.mem_cons_self
      have hy : y ∈ l.filter p := by rw [hl]; exact List.mem_cons_of_mem _ List.mem_cons_self
      obtain ⟨hx, hpx⟩ := List.mem_filter.mp hx
      obtain ⟨hy, hpy⟩ := List.mem_filter.mp hy
      rw [hl, h x hx y hy hpx hpy] at hnd'
      simp at hnd'

theorem Rooted.wellFormed (h : Rooted id parent log) : WellFormed id parent log := by
  refine ⟨h.nodup, ?_, fun e he p hp => h.parent_mem he hp, ?_⟩
  · refine (countP_le_one_iff (List.Nodup.of_map id h.nodup) _).mpr fun e he r hr hne hnr => ?_
    exact h.oneRoot e he r hr (Option.isNone_iff_eq_none.mp hne) (Option.isNone_iff_eq_none.mp hnr)
  · obtain ⟨rank, hrank⟩ := h.exists_rank
    have hfalls : ∀ i p, Relation.TransGen (ParentOf id parent log) i p → rank p < rank i := by
      intro i p hip
      induction hip with
      | single hstep =>
        obtain ⟨e, he, rfl, hp⟩ := hstep
        exact hrank e he _ hp
      | tail _ hstep ih =>
        obtain ⟨e, he, rfl, hp⟩ := hstep
        exact (hrank e he _ hp).trans ih
    exact fun i hi => lt_irrefl _ (hfalls i i hi)

/-- Without a cycle every way up ends, since there are finitely many entries. -/
theorem WellFormed.rooted (h : WellFormed id parent log) : Rooted id parent log := by
  have hup : {i | i ∈ log.map id}.WellFoundedOn
      fun p i => Relation.TransGen (ParentOf id parent log) i p := by
    have : IsStrictOrder ι fun p i => Relation.TransGen (ParentOf id parent log) i p :=
      { irrefl := h.acyclic, trans := fun _ _ _ hab hbc => hbc.trans hab }
    exact (List.finite_toSet _).wellFoundedOn
  have hreached : ∀ i ∈ log.map id, ∃ es, Chain id parent log (some i) es := by
    intro i hi
    refine hup.induction hi (P := fun i => ∃ es, Chain id parent log (some i) es)
      fun i hi ih => ?_
    obtain ⟨e, he, rfl⟩ := List.mem_map.mp hi
    cases hp : parent e with
    | none => exact ⟨[] ++ [e], .node he (hp ▸ .root)⟩
    | some p =>
      obtain ⟨es, hes⟩ := ih p (h.parents e he p hp) (.single ⟨e, he, rfl, hp⟩)
      exact ⟨es ++ [e], .node he (hp ▸ hes)⟩
  refine ⟨h.nodup, fun e he => ?_, fun e he r hr hne hnr => ?_⟩
  · cases hp : parent e with
    | none => exact ⟨[], .root⟩
    | some p => exact hreached p (h.parents e he p hp)
  · exact (countP_le_one_iff (List.Nodup.of_map id h.nodup) _).mp h.oneRoot e he r hr
      (Option.isNone_iff_eq_none.mpr hne) (Option.isNone_iff_eq_none.mpr hnr)

/-- The logs of one tree are the well-formed ones. -/
theorem rooted_iff_wellFormed : Rooted id parent log ↔ WellFormed id parent log :=
  ⟨Rooted.wellFormed, WellFormed.rooted⟩

/-- A chain begins at a root, and every node of it reaches that root. -/
theorem Chain.exists_root {head : Option ι} {es : List ε} (h : Chain id parent log head es) :
    ∀ i ∈ head, ∃ r ∈ log, parent r = none ∧
      Relation.ReflTransGen (ParentOf id parent log) i (id r) := by
  induction h with
  | root => exact fun i hi => by cases hi
  | @node e es he _ ih =>
    intro i hi
    obtain rfl := Option.some.inj hi
    cases hp : parent e with
    | none => exact ⟨e, he, hp, .refl⟩
    | some p =>
      obtain ⟨r, hr, hnone, hreach⟩ := ih p hp
      exact ⟨r, hr, hnone, .head ⟨e, he, rfl, hp⟩ hreach⟩

end Lineage
