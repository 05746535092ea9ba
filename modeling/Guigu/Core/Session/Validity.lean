import Guigu.Core.Session.Reduce
import Guigu.Library.Ancestry

/-! Which logs the reducer takes, by what can be checked of their entries, and what it makes of
them; the order of the entries makes no difference. -/
namespace Guigu

/-- Identifiers are not repeated, at most one entry has no parent, parents are there, and no entry
is above itself. -/
abbrev ValidLog (log : List SessionEntry) : Prop :=
  Lineage.WellFormed SessionEntry.id SessionEntry.parentId log

/-- The parents lead from `i` up to `p`. -/
abbrev Reaches (log : List SessionEntry) : NodeId → NodeId → Prop :=
  Relation.ReflTransGen (Lineage.ParentOf SessionEntry.id SessionEntry.parentId log)

/-- What a node holds of its entry. -/
def SessionNode.entry (n : SessionNode) : SessionEntry := ⟨n.id, n.parentId, n.message⟩

/-- The tree of a log. -/
structure IsTreeOf (log : List SessionEntry) (sessionId : String) (tree : SessionTree) :
    Prop where
  sessionId : tree.sessionId = sessionId
  nodes : (tree.nodes.map SessionNode.entry).Perm log
  ascending : Ascending tree.nodes
  children : ∀ n ∈ tree.nodes, n.children.Pairwise (· < ·) ∧
    ∀ i, i ∈ n.children ↔ ∃ e ∈ log, e.id = i ∧ e.parentId = some n.id
  root : tree.root.isSome ↔ log ≠ []
  reaches : ∀ r ∈ tree.root, (∃ e ∈ log, e.id = r ∧ e.parentId = none) ∧
    ∀ e ∈ log, Reaches log e.id r
  leaves : ∀ i, i ∈ tree.leaves ↔ (∃ e ∈ log, e.id = i) ∧ ∀ e ∈ log, e.parentId ≠ some i
  isSome_pathTo : ∀ i, (tree.pathTo i).isSome ↔ i ∈ tree.leaves
  pathTo : ∀ i, ∀ messages ∈ tree.pathTo i,
    ∃ es, ChainTo log (some i) es ∧ messages = es.map (·.message)
  ascends : ∀ e ∈ log, ∃ messages, ∀ fuel, log.length ≤ fuel →
    tree.ascend fuel (some e.id) = some messages

theorem validLog_iff_rooted {log : List SessionEntry} : ValidLog log ↔ RootedLog log :=
  Lineage.rooted_iff_wellFormed.symm

/-- The root is the one entry without a parent. -/
theorem insertEntries_root {nodes nodes' : List SessionNode} {root root' : Option NodeId}
    {es : List SessionEntry} (h : insertEntries nodes root es = .ok (nodes', root')) (r : NodeId) :
    root' = some r ↔ root = some r ∨ ∃ e ∈ es, e.parentId = none ∧ e.id = r := by
  induction es generalizing nodes root with
  | nil =>
    cases h
    simp
  | cons e es ih =>
    rw [insertEntries] at h
    split_ifs at h with hkey hmulti hnone
    · have hstart : root = none := by
        by_contra hsome
        exact hmulti ⟨hnone, hsome⟩
      rw [ih h, hstart, List.exists_mem_cons_iff]
      simp [hnone]
    · rw [ih h, List.exists_mem_cons_iff]
      simp [hnone]

theorem reduceFor_root {log : List SessionEntry} {sessionId : String} {tree : SessionTree}
    (h : reduceFor log sessionId = .ok tree) (r : NodeId) :
    tree.root = some r ↔ ∃ e ∈ log, e.parentId = none ∧ e.id = r := by
  unfold reduceFor at h
  cases hins : insertEntries [] none log with
  | error e =>
    simp only [hins] at h
    cases h
  | ok p =>
    obtain ⟨nodes, root⟩ := p
    simp only [hins] at h
    have hroot := insertEntries_root hins r
    split at h
    · cases h
    · split at h
      · cases h
      · obtain rfl := Except.ok.inj h
        simpa using hroot

/-- The children of a node are the nodes below it, in their order. -/
theorem childIds_edges (nodes : List SessionNode) (i : NodeId) :
    childIds (edges nodes) i = (nodes.filter fun n => n.parentId = some i).map (·.id) := by
  induction nodes with
  | nil => rfl
  | cons n nodes ih =>
    have hcons : edges (n :: nodes) =
        (n.parentId.map fun p => (p, n.id)).toList ++ edges nodes := by
      unfold edges
      rw [List.filterMap_cons]
      cases n.parentId <;> rfl
    have hsplit : childIds (edges (n :: nodes)) i =
        childIds (n.parentId.map fun p => (p, n.id)).toList i ++ childIds (edges nodes) i := by
      rw [hcons, childIds, List.filter_append, List.map_append]
      rfl
    rw [hsplit, ih, List.filter_cons]
    cases hp : n.parentId with
    | none => simp [childIds]
    | some p => by_cases hi : p = i <;> simp [childIds, hi]

theorem perm_insertNode (n : SessionNode) (ns : List SessionNode) :
    (insertNode n ns).Perm (n :: ns) := by
  induction ns with
  | nil => exact .refl _
  | cons k ns ih =>
    rw [insertNode]
    split_ifs
    · exact .refl _
    · exact (ih.cons k).trans (.swap n k ns)

theorem perm_insertAll (nodes : List SessionNode) (es : List SessionEntry) :
    (insertAll nodes es).Perm (es.map SessionEntry.node ++ nodes) := by
  induction es generalizing nodes with
  | nil => exact .refl _
  | cons e es ih =>
    refine (ih (insertNode e.node nodes)).trans ?_
    exact ((perm_insertNode e.node nodes).append_left _).trans List.perm_middle

variable {log log' : List SessionEntry} {sessionId : String} {tree : SessionTree}

/-- Whatever the reducer makes of a log is the tree of that log. -/
theorem isTreeOf_of_reduceFor (h : reduceFor log sessionId = .ok tree) :
    IsTreeOf log sessionId tree := by
  have hrooted := rooted_of_reduceFor h
  have hroot := reduceFor_root h
  have hasc := ascending_insertAll_nil hrooted.nodup
  obtain ⟨root, rfl⟩ := reduceFor_treeOf h
  have hleaves : ∀ i, i ∈ (treeOf log sessionId root).leaves ↔
      (∃ e ∈ log, e.id = i) ∧ ∀ e ∈ log, e.parentId ≠ some i := by
    intro i
    rw [mem_leaves_treeOf]
    constructor
    · rintro ⟨e, he, hid, hleaf⟩
      exact ⟨⟨e, he, hid⟩, hleaf⟩
    · rintro ⟨⟨e, he, hid⟩, hleaf⟩
      exact ⟨e, he, hid, hleaf⟩
  have hpath : ∀ i messages, (treeOf log sessionId root).pathTo i = some messages →
      i ∈ (treeOf log sessionId root).leaves ∧
        ∃ es, ChainTo log (some i) es ∧ messages = es.map (·.message) := by
    intro i messages hmessages
    have hfound := hmessages
    unfold SessionTree.pathTo at hfound
    obtain ⟨n, hn, -⟩ := Option.bind_eq_some_iff.mp hfound
    obtain ⟨hmem, rfl⟩ := mem_of_getNode hn
    obtain ⟨e, he, rfl⟩ := mem_treeOf.mp hmem
    have hleaf : LeafOf log e.id := by
      by_contra hinner
      cases hmessages.symm.trans (pathTo_treeOf_inner hrooted he hinner)
    obtain ⟨es, hes⟩ := hrooted.exists_chain (List.mem_map_of_mem he)
    refine ⟨(hleaves e.id).mpr ⟨⟨e, he, rfl⟩, hleaf⟩, es, hes, ?_⟩
    exact Option.some.inj (hmessages.symm.trans (pathTo_treeOf hrooted hes hleaf))
  refine ⟨rfl, ?_, ?_, ?_, ?_, ?_, hleaves, ?_, fun i messages hmem => (hpath i messages hmem).2,
    ?_⟩
  · rw [nodes_treeOf, List.map_map]
    have hentries := (perm_insertAll [] log).map SessionNode.entry
    rw [List.append_nil, List.map_map] at hentries
    have hid : log.map (SessionNode.entry ∘ SessionEntry.node) = log := List.map_id log
    rw [hid] at hentries
    exact hentries
  · rw [nodes_treeOf]
    exact List.pairwise_map.mpr hasc
  · intro n hn
    obtain ⟨e, he, rfl⟩ := mem_treeOf.mp hn
    have hchildren : (treeNode log e).children =
        ((insertAll [] log).filter fun n => n.parentId = some e.id).map (·.id) :=
      childIds_edges _ _
    rw [hchildren]
    refine ⟨List.pairwise_map.mpr (hasc.filter _), fun i => ?_⟩
    simp only [List.mem_map, List.mem_filter, mem_insertAll_nil, decide_eq_true_eq]
    constructor
    · rintro ⟨_, ⟨⟨r, hr, rfl⟩, hp⟩, rfl⟩
      exact ⟨r, hr, rfl, hp⟩
    · rintro ⟨r, hr, rfl, hp⟩
      exact ⟨_, ⟨⟨r, hr, rfl⟩, hp⟩, rfl⟩
  · rw [Option.isSome_iff_exists]
    constructor
    · rintro ⟨r, hr⟩ rfl
      obtain ⟨e, he, -⟩ := (hroot r).mp hr
      cases he
    · intro hne
      obtain ⟨e, he⟩ := List.exists_mem_of_ne_nil log hne
      obtain ⟨es, hes⟩ := hrooted.exists_chain (List.mem_map_of_mem he)
      obtain ⟨r, hr, hnone, -⟩ := hes.exists_root e.id rfl
      exact ⟨r.id, (hroot r.id).mpr ⟨r, hr, hnone, rfl⟩⟩
  · intro r hr
    obtain ⟨q, hq, hnone, rfl⟩ := (hroot r).mp hr
    refine ⟨⟨q, hq, rfl, hnone⟩, fun e he => ?_⟩
    obtain ⟨es, hes⟩ := hrooted.exists_chain (List.mem_map_of_mem he)
    obtain ⟨r, hr, hroot, hreach⟩ := hes.exists_root e.id rfl
    rw [hrooted.oneRoot q hq r hr hnone hroot]
    exact hreach
  · intro i
    constructor
    · intro hsome
      obtain ⟨messages, hmessages⟩ := Option.isSome_iff_exists.mp hsome
      exact (hpath i messages hmessages).1
    · intro hi
      obtain ⟨⟨e, he, rfl⟩, hleaf⟩ := (hleaves i).mp hi
      obtain ⟨es, hes⟩ := hrooted.exists_chain (List.mem_map_of_mem he)
      rw [pathTo_treeOf hrooted hes hleaf]
      rfl
  · intro e he
    obtain ⟨es, hes⟩ := hrooted.exists_chain (List.mem_map_of_mem he)
    exact ⟨_, fun fuel hfuel =>
      ascend_treeOf hrooted hes ((hes.length_le hrooted.nodup).trans hfuel)⟩

theorem reduceFor_isOk_iff :
    (∃ tree, reduceFor log sessionId = .ok tree) ↔ ValidLog log := by
  rw [validLog_iff_rooted]
  constructor
  · rintro ⟨tree, h⟩
    exact rooted_of_reduceFor h
  · intro h
    obtain ⟨root, hroot⟩ := reduceFor_rooted h sessionId
    exact ⟨_, hroot⟩

/-- Nodes in ascending order are determined by which they are. -/
theorem insertAll_perm (hnd : (log.map SessionEntry.id).Nodup) (hperm : log.Perm log') :
    insertAll [] log = insertAll [] log' := by
  have hperm' : (insertAll [] log).Perm (insertAll [] log') :=
    (perm_insertAll [] log).trans
      (((hperm.map SessionEntry.node).append_right []).trans (perm_insertAll [] log').symm)
  refine hperm'.eq_of_pairwise (fun m n _ _ hmn hnm => absurd hmn (lt_asymm hnm))
    (ascending_insertAll_nil hnd) ?_
  exact ascending_insertAll_nil ((hperm.map SessionEntry.id).nodup_iff.mp hnd)

/-- Logs with the same entries have the same tree. -/
theorem reduceFor_perm (h : reduceFor log sessionId = .ok tree) (hperm : log.Perm log') :
    reduceFor log' sessionId = .ok tree := by
  have hvalid : ValidLog log' := (reduceFor_isOk_iff.mp ⟨tree, h⟩).perm hperm
  have hok : ∃ tree', reduceFor log' sessionId = .ok tree' := reduceFor_isOk_iff.mpr hvalid
  obtain ⟨tree', h'⟩ := hok
  have hroot : tree.root = tree'.root := by
    refine Option.ext fun r => ?_
    rw [reduceFor_root h, reduceFor_root h']
    simp only [hperm.mem_iff]
  obtain ⟨root, rfl⟩ := reduceFor_treeOf h
  obtain ⟨root', rfl⟩ := reduceFor_treeOf h'
  obtain rfl : root = root' := hroot
  have hnodes := insertAll_perm (reduceFor_isOk_iff.mp ⟨_, h⟩).nodup hperm
  rw [h', treeOf, treeOf, hnodes]

/-- The reducer takes the valid logs, in whatever order their entries stand, and makes their trees
of them. -/
theorem reduceFor_spec (log : List SessionEntry) (sessionId : String) :
    ((∃ tree, reduceFor log sessionId = .ok tree) ↔ ValidLog log) ∧
      (∀ tree, reduceFor log sessionId = .ok tree → IsTreeOf log sessionId tree) ∧
      ∀ log', log.Perm log' →
        (reduceFor log' sessionId).toOption = (reduceFor log sessionId).toOption := by
  refine ⟨reduceFor_isOk_iff, fun tree => isTreeOf_of_reduceFor, fun log' hperm => ?_⟩
  cases h : reduceFor log sessionId with
  | ok tree => rw [reduceFor_perm h hperm]
  | error e =>
    cases h' : reduceFor log' sessionId with
    | error e' => rfl
    | ok tree => cases (reduceFor_perm h' hperm.symm).symm.trans h

end Guigu
