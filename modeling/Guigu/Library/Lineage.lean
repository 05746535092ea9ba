import Mathlib.Data.List.Nodup
import Mathlib.Data.List.Induction
import Mathlib.Data.List.Perm.Subperm
import Mathlib.Order.Basic
import Mathlib.Tactic.Choose

/-! Logs of tree nodes: every entry has an identifier and may name a parent. The chain of a
node, logs that grow one node at a time under an earlier one, and leaves. -/
namespace Lineage

variable {ε ι : Type*} (id : ε → ι) (parent : ε → Option ι)

/-- The entries from a root down to `head`. -/
inductive Chain (log : List ε) : Option ι → List ε → Prop
  | root : Chain log none []
  | node {e : ε} {es : List ε} :
      e ∈ log → Chain log (parent e) es → Chain log (some (id e)) (es ++ [e])

/-- A log in which every entry has a fresh identifier and hangs under an earlier one; only
the first entry may be a root. -/
inductive Grown : List ε → Prop
  | nil : Grown []
  | snoc {log : List ε} {e : ε} : Grown log → id e ∉ log.map id →
      (parent e = none → log = []) → (∀ p ∈ parent e, p ∈ log.map id) → Grown (log ++ [e])

/-- A log of one tree, its entries in any order: identifiers are not repeated, every parent is
reached from a root, and there is at most one root. -/
structure Rooted (log : List ε) : Prop where
  nodup : (log.map id).Nodup
  reached : ∀ e ∈ log, ∃ es, Chain id parent log (parent e) es
  oneRoot : ∀ e ∈ log, ∀ r ∈ log, parent e = none → parent r = none → e = r

/-- No entry names `i` as its parent. -/
def Leaf (log : List ε) (i : ι) : Prop := ∀ e ∈ log, parent e ≠ some i

variable {id parent} {log log' : List ε} {e : ε}

theorem Chain.mono {head : Option ι} {es : List ε} (h : Chain id parent log head es)
    (hsub : log ⊆ log') : Chain id parent log' head es := by
  induction h with
  | root => exact .root
  | node he _ ih => exact .node (hsub he) ih

theorem Chain.append_right {head : Option ι} {es : List ε} (h : Chain id parent log head es)
    (more : List ε) : Chain id parent (log ++ more) head es :=
  h.mono (List.subset_append_left log more)

/-- A new entry extends the chain of its parent. -/
theorem Chain.snoc {es : List ε} (h : Chain id parent log (parent e) es) :
    Chain id parent (log ++ [e]) (some (id e)) (es ++ [e]) :=
  .node (by simp) (h.append_right [e])

theorem Chain.mem_ids {i : ι} {es : List ε} (h : Chain id parent log (some i) es) :
    i ∈ log.map id := by
  cases h with
  | node he _ => exact List.mem_map_of_mem he

theorem Chain.eq_nil {es : List ε} (h : Chain id parent log none es) : es = [] := by
  cases h
  rfl

/-- Where identifiers are not repeated, a node has one chain. -/
theorem Chain.unique (hnd : (log.map id).Nodup) {head : Option ι} {es es' : List ε}
    (h : Chain id parent log head es) (h' : Chain id parent log head es') : es = es' := by
  induction h generalizing es' with
  | root => exact h'.eq_nil.symm
  | @node e es he _ ih =>
    generalize hi : some (id e) = head at h'
    cases h' with
    | root => cases hi
    | @node e' es'' he' hc' =>
      obtain rfl : e = e' := List.inj_on_of_nodup_map hnd he he' (Option.some.inj hi)
      rw [ih hc']

theorem Grown.nodup (h : Grown id parent log) : (log.map id).Nodup := by
  induction h with
  | nil => exact List.nodup_nil
  | snoc _ hfresh _ _ ih =>
    rw [List.map_append, List.map_singleton, ← List.concat_eq_append]
    exact ih.concat hfresh

theorem Grown.snoc_inv (h : Grown id parent (log ++ [e])) : Grown id parent log ∧
    id e ∉ log.map id ∧ (parent e = none → log = []) ∧ ∀ p ∈ parent e, p ∈ log.map id := by
  generalize hl : log ++ [e] = l at h
  cases h with
  | nil => simp at hl
  | snoc hg hfresh hroot hparent =>
    obtain ⟨rfl, he⟩ := List.append_inj' hl rfl
    obtain rfl := List.singleton_inj.mp he
    exact ⟨hg, hfresh, hroot, hparent⟩

/-- Growing never breaks what was there: every front part of a grown log is grown. -/
theorem Grown.of_prefix (h : Grown id parent log) (hp : log' <+: log) : Grown id parent log' := by
  obtain ⟨more, rfl⟩ := hp
  induction more using List.reverseRecOn with
  | nil => simpa using h
  | append_singleton more e ih =>
    rw [← List.append_assoc] at h
    exact ih h.snoc_inv.1

theorem Grown.exists_chain (h : Grown id parent log) {i : ι} (hi : i ∈ log.map id) :
    ∃ es, Chain id parent log (some i) es := by
  induction h generalizing i with
  | nil => cases hi
  | @snoc log e _ hfresh hroot hparent ih =>
    rw [List.map_append, List.map_singleton, List.mem_append, List.mem_singleton] at hi
    rcases hi with hi | rfl
    · obtain ⟨es, hes⟩ := ih hi
      exact ⟨es, hes.append_right [e]⟩
    · cases hp : parent e with
      | none =>
        have hroot : Chain id parent log (parent e) [] := hp ▸ .root
        exact ⟨[e], hroot.snoc⟩
      | some p =>
        obtain ⟨es, hes⟩ := ih (hparent p hp)
        exact ⟨es ++ [e], Chain.snoc (hp ▸ hes)⟩

/-- At most the first entry is a root. -/
theorem Grown.root_eq (h : Grown id parent log) {r : ε} (hr : r ∈ log) (hn : parent r = none) :
    log.head? = some r := by
  induction h with
  | nil => cases hr
  | @snoc log e _ _ hroot _ ih =>
    rw [List.mem_append, List.mem_singleton] at hr
    rcases hr with hr | rfl
    · have := ih hr
      cases log with
      | nil => cases this
      | cons x xs => exact this
    · rw [hroot hn]
      rfl

theorem Grown.parent_mem (h : Grown id parent log) (he : e ∈ log) {p : ι} (hp : p ∈ parent e) :
    p ∈ log.map id := by
  induction h with
  | nil => cases he
  | @snoc log r hg hfresh hroot hparent ih =>
    rw [List.map_append]
    rw [List.mem_append, List.mem_singleton] at he
    rcases he with he | rfl
    · exact List.mem_append_left _ (ih he)
    · exact List.mem_append_left _ (hparent p hp)

theorem Grown.rooted (h : Grown id parent log) : Rooted id parent log := by
  constructor
  · exact h.nodup
  · intro e he
    cases hp : parent e with
    | none => exact ⟨[], .root⟩
    | some p => exact h.exists_chain (h.parent_mem he hp)
  · intro e he r hr hne hnr
    have heq : some e = some r := (h.root_eq he hne).symm.trans (h.root_eq hr hnr)
    exact Option.some.inj heq

theorem Leaf.snoc {i : ι} (h : Leaf parent log i) (he : parent e ≠ some i) :
    Leaf parent (log ++ [e]) i := by
  intro r hr
  rw [List.mem_append, List.mem_singleton] at hr
  rcases hr with hr | rfl
  · exact h r hr
  · exact he

/-- The newest node is a leaf. -/
theorem Grown.leaf_last (h : Grown id parent (log ++ [e])) : Leaf parent (log ++ [e]) (id e) := by
  obtain ⟨hg, hfresh, -, hparent⟩ := h.snoc_inv
  refine Leaf.snoc (fun r hr hp => hfresh (hg.parent_mem hr hp)) fun hp => ?_
  exact hfresh (hparent _ hp)

/-- Where parents come before their children, the greatest node is a leaf. -/
theorem leaf_of_forall_le [Preorder ι] {i : ι} (hids : ∀ e ∈ log, ∀ p ∈ parent e, p < id e)
    (hle : ∀ e ∈ log, id e ≤ i) : Leaf parent log i := by
  intro e he hp
  exact (hids e he i hp).not_ge (hle e he)

namespace Rooted

theorem exists_chain (h : Rooted id parent log) {i : ι} (hi : i ∈ log.map id) :
    ∃ es, Chain id parent log (some i) es := by
  obtain ⟨e, he, rfl⟩ := List.mem_map.mp hi
  obtain ⟨es, hes⟩ := h.reached e he
  exact ⟨es ++ [e], .node he hes⟩

theorem parent_mem (h : Rooted id parent log) (he : e ∈ log) {p : ι} (hp : p ∈ parent e) :
    p ∈ log.map id := by
  obtain ⟨es, hes⟩ := h.reached e he
  rw [hp] at hes
  exact hes.mem_ids

/-- A fresh node under an earlier one, or the first node of all. -/
theorem snoc (h : Rooted id parent log) (hfresh : id e ∉ log.map id)
    (hroot : parent e = none → log = []) (hparent : ∀ p ∈ parent e, p ∈ log.map id) :
    Rooted id parent (log ++ [e]) := by
  constructor
  · rw [List.map_append, List.map_singleton, ← List.concat_eq_append]
    exact h.nodup.concat hfresh
  · intro r hr
    rw [List.mem_append, List.mem_singleton] at hr
    rcases hr with hr | rfl
    · obtain ⟨es, hes⟩ := h.reached r hr
      exact ⟨es, hes.append_right [e]⟩
    · cases hp : parent r with
      | none => exact ⟨[], .root⟩
      | some p =>
        obtain ⟨es, hes⟩ := h.exists_chain (hparent p hp)
        exact ⟨es, hes.append_right [r]⟩
  · cases hp : parent e with
    | none =>
      rw [hroot hp, List.nil_append]
      intro a ha b hb _ _
      rw [List.mem_singleton.mp ha, List.mem_singleton.mp hb]
    | some p =>
      have hold : ∀ a ∈ log ++ [e], parent a = none → a ∈ log := by
        intro a ha hnone
        rw [List.mem_append, List.mem_singleton] at ha
        rcases ha with ha | rfl
        · exact ha
        · exact absurd (hp.symm.trans hnone) (by simp)
      intro a ha b hb hna hnb
      exact h.oneRoot a (hold a ha hna) b (hold b hb hnb) hna hnb

end Rooted

/-- Where a chain passes an entry it is the chain of that entry so far. -/
theorem Chain.passes {head : Option ι} {es : List ε} (h : Chain id parent log head es)
    (he : e ∈ es) : ∃ before behind, es = before ++ e :: behind ∧
      Chain id parent log (some (id e)) (before ++ [e]) := by
  induction h with
  | root => cases he
  | @node r rs hr hrs ih =>
    rw [List.mem_append, List.mem_singleton] at he
    rcases he with he | rfl
    · obtain ⟨before, behind, hsplit, hchain⟩ := ih he
      refine ⟨before, behind ++ [r], ?_, hchain⟩
      rw [hsplit, List.append_assoc, List.cons_append]
    · exact ⟨rs, [], rfl, .node hr hrs⟩

theorem Chain.subset {head : Option ι} {es : List ε} (h : Chain id parent log head es) :
    es ⊆ log := by
  induction h with
  | root => exact List.nil_subset log
  | node he _ ih =>
    apply List.append_subset.mpr
    exact ⟨ih, List.cons_subset.mpr ⟨he, List.nil_subset log⟩⟩

/-- A chain meets no entry twice. -/
theorem Chain.nodup (hnd : (log.map id).Nodup) {head : Option ι} {es : List ε}
    (h : Chain id parent log head es) : es.Nodup := by
  induction h with
  | root => exact List.nodup_nil
  | @node e es he hes ih =>
    rw [← List.concat_eq_append]
    apply ih.concat
    intro hmem
    obtain ⟨before, behind, hsplit, hchain⟩ := hes.passes hmem
    -- the chain of `e` would be a proper front of itself
    have hsame : before ++ [e] = es ++ [e] := Chain.unique hnd hchain (.node he hes)
    have hlen := congrArg List.length hsplit
    rw [← List.append_cancel_right hsame, List.length_append, List.length_cons] at hlen
    omega

theorem Chain.length_le (hnd : (log.map id).Nodup) {head : Option ι} {es : List ε}
    (h : Chain id parent log head es) : es.length ≤ log.length :=
  (List.subperm_of_subset (h.nodup hnd) h.subset).length_le

/-- The distance to the root falls from every entry to its parent. -/
theorem Rooted.exists_rank (h : Rooted id parent log) :
    ∃ rank : ι → ℕ, ∀ e ∈ log, ∀ p ∈ parent e, rank p < rank (id e) := by
  classical
  have hdepth : ∀ i, ∃ n, ∀ es, Chain id parent log (some i) es → es.length = n := by
    intro i
    by_cases hi : i ∈ log.map id
    · obtain ⟨es, hes⟩ := h.exists_chain hi
      exact ⟨es.length, fun fs hfs => congrArg List.length (hfs.unique h.nodup hes)⟩
    · exact ⟨0, fun fs hfs => absurd hfs.mem_ids hi⟩
  choose rank hrank using hdepth
  refine ⟨rank, fun e he p hp => ?_⟩
  obtain ⟨es, hes⟩ := h.reached e he
  have hchild := hrank (id e) (es ++ [e]) (.node he hes)
  rw [hp] at hes
  have hparent := hrank p es hes
  rw [List.length_append, List.length_singleton] at hchild
  omega

end Lineage
