import Guigu.Core.Session.Tree
import Guigu.Library.Lineage
import Mathlib.Data.List.Perm.Subperm

/-! Which logs the reducer takes, and the tree it makes of them. -/
namespace Guigu

/-- The log grew one node at a time under nodes it already had. -/
abbrev GrownLog (log : List SessionEntry) : Prop :=
  Lineage.Grown SessionEntry.id SessionEntry.parentId log

/-- The nodes of the log form one tree, in whatever order they stand. -/
abbrev RootedLog (log : List SessionEntry) : Prop :=
  Lineage.Rooted SessionEntry.id SessionEntry.parentId log

/-- The entries from the root to `head`. -/
abbrev ChainTo (log : List SessionEntry) (head : Option NodeId) (es : List SessionEntry) : Prop :=
  Lineage.Chain SessionEntry.id SessionEntry.parentId log head es

abbrev LeafOf (log : List SessionEntry) (i : NodeId) : Prop :=
  Lineage.Leaf SessionEntry.parentId log i

/-- The node of an entry before its children are known. -/
def SessionEntry.node (e : SessionEntry) : SessionNode := ⟨e.id, e.parentId, e.message, []⟩

def insertAll (nodes : List SessionNode) (es : List SessionEntry) : List SessionNode :=
  es.foldl (fun ns e => insertNode e.node ns) nodes

def Ascending (nodes : List SessionNode) : Prop := nodes.Pairwise fun m n => m.id < n.id

@[simp] theorem mem_insertNode {m n : SessionNode} {ns : List SessionNode} :
    m ∈ insertNode n ns ↔ m = n ∨ m ∈ ns := by
  induction ns with
  | nil => simp [insertNode]
  | cons k ns ih =>
    rw [insertNode]
    split_ifs
    · simp
    · simp only [List.mem_cons, ih]
      tauto

@[simp] theorem length_insertNode (n : SessionNode) (ns : List SessionNode) :
    (insertNode n ns).length = ns.length + 1 := by
  induction ns with
  | nil => rfl
  | cons k ns ih =>
    rw [insertNode]
    split_ifs
    · rfl
    · simp [ih]

theorem Ascending.insertNode {n : SessionNode} {ns : List SessionNode} (h : Ascending ns)
    (hn : ∀ m ∈ ns, m.id ≠ n.id) : Ascending (insertNode n ns) := by
  induction ns with
  | nil => exact List.pairwise_singleton _ _
  | cons k ns ih =>
    obtain ⟨hk, hns⟩ := List.pairwise_cons.mp h
    obtain ⟨hnk, hnns⟩ := List.forall_mem_cons.mp hn
    rw [Guigu.insertNode]
    split_ifs with hlt
    · refine List.pairwise_cons.mpr ⟨fun m hm => ?_, h⟩
      rcases List.mem_cons.mp hm with rfl | hm
      · exact hlt
      · exact hlt.trans (hk m hm)
    · refine List.pairwise_cons.mpr ⟨fun m hm => ?_, ih hns hnns⟩
      rcases mem_insertNode.mp hm with rfl | hm
      · exact lt_of_le_of_ne (not_lt.mp hlt) hnk
      · exact hk m hm

theorem Ascending.inj {ns : List SessionNode} (h : Ascending ns) {m n : SessionNode} (hm : m ∈ ns)
    (hn : n ∈ ns) (he : m.id = n.id) : m = n := by
  have hnd : (ns.map (·.id)).Nodup :=
    List.pairwise_map.mpr (h.imp fun hlt => Nat.ne_of_lt hlt)
  exact List.inj_on_of_nodup_map hnd hm hn he

theorem containsKey_iff {ns : List SessionNode} {i : NodeId} :
    containsKey ns i = true ↔ ∃ n ∈ ns, n.id = i := by simp [containsKey]

theorem Ascending.getNode_eq {ns : List SessionNode} (h : Ascending ns) {n : SessionNode}
    (hn : n ∈ ns) : getNode ns n.id = some n := by
  cases hg : getNode ns n.id with
  | none =>
    have := List.find?_eq_none.mp hg n hn
    simp at this
  | some m =>
    have hid : m.id = n.id := by simpa using List.find?_some hg
    rw [h.inj (List.mem_of_find?_eq_some hg) hn hid]

theorem mem_of_getNode {ns : List SessionNode} {i : NodeId} {n : SessionNode}
    (h : getNode ns i = some n) : n ∈ ns ∧ n.id = i :=
  ⟨List.mem_of_find?_eq_some h, by simpa using List.find?_some h⟩

theorem mem_insertAll {nodes : List SessionNode} {es : List SessionEntry} {n : SessionNode} :
    n ∈ insertAll nodes es ↔ n ∈ nodes ∨ ∃ e ∈ es, e.node = n := by
  induction es generalizing nodes with
  | nil => simp [insertAll]
  | cons e es ih =>
    change n ∈ insertAll (insertNode e.node nodes) es ↔ _
    rw [ih, mem_insertNode]
    simp only [List.mem_cons, exists_eq_or_imp]
    tauto

theorem length_insertAll (nodes : List SessionNode) (es : List SessionEntry) :
    (insertAll nodes es).length = nodes.length + es.length := by
  induction es generalizing nodes with
  | nil => rfl
  | cons e es ih =>
    change (insertAll (insertNode e.node nodes) es).length = _
    rw [ih, length_insertNode, List.length_cons]
    omega

theorem ascending_insertAll {nodes : List SessionNode} {es : List SessionEntry}
    (h : Ascending nodes) (hnd : (es.map SessionEntry.id).Nodup)
    (hfresh : ∀ e ∈ es, ∀ m ∈ nodes, m.id ≠ e.id) : Ascending (insertAll nodes es) := by
  induction es generalizing nodes with
  | nil => exact h
  | cons e es ih =>
    change Ascending (insertAll (insertNode e.node nodes) es)
    rw [List.map_cons, List.nodup_cons] at hnd
    obtain ⟨he, hes⟩ := List.forall_mem_cons.mp hfresh
    refine ih (h.insertNode he) hnd.2 fun r hr m hm => ?_
    rcases mem_insertNode.mp hm with rfl | hm
    · intro heq
      exact hnd.1 (List.mem_map.mpr ⟨r, hr, heq.symm⟩)
    · exact hes r hr m hm

/-- The first loop takes fresh identifiers and at most one root. -/
theorem insertEntries_ok {nodes : List SessionNode} {root : Option NodeId}
    {es : List SessionEntry} (hnd : (es.map SessionEntry.id).Nodup)
    (hfresh : ∀ e ∈ es, ∀ m ∈ nodes, m.id ≠ e.id)
    (hroot : ∀ e ∈ es, e.parentId = none → root = none ∧ ∀ r ∈ es, r.parentId = none → e = r) :
    ∃ root', insertEntries nodes root es = .ok (insertAll nodes es, root') := by
  induction es generalizing nodes root with
  | nil => exact ⟨root, rfl⟩
  | cons e es ih =>
    rw [List.map_cons, List.nodup_cons] at hnd
    obtain ⟨he, hes⟩ := List.forall_mem_cons.mp hfresh
    obtain ⟨hre, hres⟩ := List.forall_mem_cons.mp hroot
    have hkey : containsKey nodes e.id = false := by
      rw [← Bool.not_eq_true, containsKey_iff]
      rintro ⟨m, hm, hid⟩
      exact he m hm hid
    have hmulti : ¬ (e.parentId = none ∧ root ≠ none) := fun h => h.2 (hre h.1).1
    rw [insertEntries, if_neg (by simp [hkey]), if_neg hmulti]
    refine ih hnd.2 (fun r hr m hm => ?_) fun r hr hn => ?_
    · rcases mem_insertNode.mp hm with rfl | hm
      · intro heq
        exact hnd.1 (List.mem_map.mpr ⟨r, hr, heq.symm⟩)
      · exact hes r hr m hm
    · obtain ⟨hnone, hsame⟩ := hres r hr hn
      have hne : e.parentId ≠ none := by
        intro he
        -- a second root would have the identifier of the first
        obtain rfl := (hre he).2 r (List.mem_cons_of_mem e hr) hn
        exact hnd.1 (List.mem_map_of_mem hr)
      rw [if_neg hne]
      exact ⟨hnone, fun q hq hnq => hsame q (List.mem_cons_of_mem e hq) hnq⟩

/-- And it takes nothing else. -/
theorem insertEntries_inv {nodes nodes' : List SessionNode} {root root' : Option NodeId}
    {es : List SessionEntry} (h : insertEntries nodes root es = .ok (nodes', root')) :
    nodes' = insertAll nodes es ∧ (es.map SessionEntry.id).Nodup ∧
      (∀ e ∈ es, ∀ m ∈ nodes, m.id ≠ e.id) ∧
      ∀ e ∈ es, e.parentId = none → root = none ∧ ∀ r ∈ es, r.parentId = none → e = r := by
  induction es generalizing nodes root with
  | nil =>
    cases h
    exact ⟨rfl, List.nodup_nil, List.forall_mem_nil _, List.forall_mem_nil _⟩
  | cons e es ih =>
    rw [insertEntries] at h
    split_ifs at h with hkey hmulti hnone
    all_goals
      obtain ⟨hnodes, hnd, hfresh, hroot⟩ := ih h
      have hnew : ∀ m ∈ nodes, m.id ≠ e.id :=
        fun m hm hid => hkey (containsKey_iff.mpr ⟨m, hm, hid⟩)
      have hes : ∀ r ∈ es, e.id ≠ r.id ∧ ∀ m ∈ nodes, m.id ≠ r.id := by
        intro r hr
        have hall := hfresh r hr
        exact ⟨hall _ (mem_insertNode.mpr (Or.inl rfl)),
          fun m hm => hall m (mem_insertNode.mpr (Or.inr hm))⟩
      have hids : e.id ∉ es.map SessionEntry.id := by
        intro hmem
        obtain ⟨r, hr, hid⟩ := List.mem_map.mp hmem
        exact (hes r hr).1 hid.symm
      refine ⟨hnodes, List.nodup_cons.mpr ⟨hids, hnd⟩,
        List.forall_mem_cons.mpr ⟨hnew, fun r hr => (hes r hr).2⟩, ?_⟩
    · -- the first entry is a root, and the rest found it there
      have hrest : ∀ r ∈ es, r.parentId ≠ none := by
        intro r hr hn
        cases (hroot r hr hn).1
      have hstart : root = none := by
        by_contra hsome
        exact hmulti ⟨hnone, hsome⟩
      have hsame : ∀ r ∈ e :: es, r.parentId = none → e = r := by
        intro r hr hn
        rcases List.mem_cons.mp hr with rfl | hr
        · rfl
        · exact absurd hn (hrest r hr)
      exact List.forall_mem_cons.mpr ⟨fun _ => ⟨hstart, hsame⟩,
        fun r hr hn => absurd hn (hrest r hr)⟩
    · refine List.forall_mem_cons.mpr ⟨fun hn => absurd hn hnone, fun r hr hn => ?_⟩
      obtain ⟨hstart, hsame⟩ := hroot r hr hn
      refine ⟨hstart, List.forall_mem_cons.mpr ⟨fun hn => absurd hn hnone, hsame⟩⟩

theorem missingParent_eq_none {nodes : List SessionNode}
    (h : ∀ n ∈ nodes, ∀ p ∈ n.parentId, ∃ m ∈ nodes, m.id = p) : missingParent nodes = none := by
  refine List.findSome?_eq_none_iff.mpr fun n hn => ?_
  rw [Option.filter_eq_none_iff]
  intro p hp
  simp [containsKey_iff.mpr (h n hn p hp)]

theorem parent_of_missingParent {nodes : List SessionNode} (h : missingParent nodes = none)
    {n : SessionNode} (hn : n ∈ nodes) {p : NodeId} (hp : p ∈ n.parentId) :
    ∃ m ∈ nodes, m.id = p := by
  have hnone := List.findSome?_eq_none_iff.mp h n hn
  rw [Option.filter_eq_none_iff] at hnone
  have hkey := hnone p hp
  rw [Bool.not_eq_true', Bool.not_eq_false] at hkey
  exact containsKey_iff.mp hkey

/-- The coloured nodes on the way up, and how far the way still goes. -/
structure Climbing (nodes : List SessionNode) (rank : NodeId → ℕ) (state : NodeId → Colour)
    (path : List NodeId) (cursor : Option NodeId) : Prop where
  open_iff : ∀ i, state i = .inProgress ↔ i ∈ path
  nodup : path.Nodup
  subset : path ⊆ nodes.map (·.id)
  above : ∀ c ∈ cursor, (∀ i ∈ path, rank c < rank i) ∧ c ∈ nodes.map (·.id)

theorem Climbing.step {nodes : List SessionNode} {rank : NodeId → ℕ} {state : NodeId → Colour}
    {path : List NodeId} {i : NodeId} (hasc : Ascending nodes)
    (hrank : ∀ n ∈ nodes, ∀ p ∈ n.parentId, rank p < rank n.id ∧ p ∈ nodes.map (·.id))
    (h : Climbing nodes rank state path (some i)) :
    Climbing nodes rank (Function.update state i .inProgress) (path ++ [i])
      ((getNode nodes i).bind (·.parentId)) := by
  obtain ⟨habove, hin⟩ := h.above i rfl
  obtain ⟨n, hn, rfl⟩ := List.mem_map.mp hin
  have hnew : n.id ∉ path := fun hmem => lt_irrefl _ (habove _ hmem)
  refine ⟨fun j => ?_, ?_, ?_, ?_⟩
  · rw [Function.update_apply, List.mem_append, List.mem_singleton, ← h.open_iff]
    split_ifs with hj <;> simp [hj]
  · rw [← List.concat_eq_append]
    exact h.nodup.concat hnew
  · intro j hj
    rw [List.mem_append, List.mem_singleton] at hj
    rcases hj with hj | rfl
    · exact h.subset hj
    · exact hin
  · intro c hc
    rw [hasc.getNode_eq hn, Option.bind_some] at hc
    obtain ⟨hlt, hcin⟩ := hrank n hn c hc
    refine ⟨fun j hj => ?_, hcin⟩
    rw [List.mem_append, List.mem_singleton] at hj
    rcases hj with hj | rfl
    · exact hlt.trans (habove j hj)
    · exact hlt

/-- With ranks that fall towards the root, the way up meets no node twice and ends in time. -/
theorem climb_ok {nodes : List SessionNode} {rank : NodeId → ℕ} (hasc : Ascending nodes)
    (hrank : ∀ n ∈ nodes, ∀ p ∈ n.parentId, rank p < rank n.id ∧ p ∈ nodes.map (·.id))
    {fuel : ℕ} {state : NodeId → Colour} {path : List NodeId} {cursor : Option NodeId}
    (h : Climbing nodes rank state path cursor) (hfuel : nodes.length < fuel + path.length) :
    ∃ state' path', climb nodes fuel state path cursor = .ok (state', path') ∧
      Climbing nodes rank state' path' none := by
  have hlen : path.length ≤ nodes.length := by
    have := (List.subperm_of_subset h.nodup h.subset).length_le
    simpa using this
  induction fuel generalizing state path cursor with
  | zero => omega
  | succ fuel ih =>
    cases cursor with
    | none => exact ⟨state, path, rfl, h⟩
    | some i =>
      cases hs : state i with
      | inProgress =>
        have hmem := (h.open_iff i).mp hs
        exact absurd ((h.above i rfl).1 i hmem) (lt_irrefl _)
      | done =>
        refine ⟨state, path, by simp [climb, hs], h.open_iff, h.nodup, h.subset, by simp⟩
      | unvisited =>
        have hnext := h.step hasc hrank
        have hlen' := (List.subperm_of_subset hnext.nodup hnext.subset).length_le
        obtain ⟨state', path', hc, hc'⟩ := ih hnext
          (by rw [List.length_append, List.length_singleton]; omega) (by simpa using hlen')
        exact ⟨state', path', by simp [climb, hs, hc], hc'⟩

theorem markDone_eq (state : NodeId → Colour) (path : List NodeId) (i : NodeId) :
    markDone state path i = if i ∈ path then .done else state i := by
  induction path generalizing state with
  | nil => rfl
  | cons j path ih =>
    change markDone (Function.update state j .done) path i = _
    rw [ih, Function.update_apply]
    by_cases hi : i ∈ path
    · simp [hi]
    · by_cases hj : i = j <;> simp [hi, hj]

theorem checkFrom_ok {nodes : List SessionNode} {rank : NodeId → ℕ} (hasc : Ascending nodes)
    (hrank : ∀ n ∈ nodes, ∀ p ∈ n.parentId, rank p < rank n.id ∧ p ∈ nodes.map (·.id))
    {starts : List NodeId} (hstarts : starts ⊆ nodes.map (·.id)) {state : NodeId → Colour}
    (hstate : ∀ i, state i ≠ .inProgress) : checkFrom nodes state starts = .ok () := by
  induction starts generalizing state with
  | nil => rfl
  | cons s starts ih =>
    obtain ⟨hs, hrest⟩ := List.cons_subset.mp hstarts
    rw [checkFrom]
    split_ifs with hdone
    · exact ih hrest hstate
    · have hclimb : Climbing nodes rank state [] (some s) :=
        ⟨fun i => by simp [hstate i], List.nodup_nil, List.nil_subset _,
          fun c hc => ⟨by simp, Option.some.inj hc ▸ hs⟩⟩
      have hfuel : nodes.length < nodes.length + 1 + ([] : List NodeId).length := by simp
      obtain ⟨state', path', hc, hend⟩ := climb_ok hasc hrank hclimb hfuel
      simp only [hc]
      refine ih hrest fun i => ?_
      rw [markDone_eq]
      split_ifs with hi
      · simp
      · exact fun he => hi ((hend.open_iff i).mp he)

theorem checkAcyclic_ok {nodes : List SessionNode} {rank : NodeId → ℕ} (hasc : Ascending nodes)
    (hrank : ∀ n ∈ nodes, ∀ p ∈ n.parentId, rank p < rank n.id ∧ p ∈ nodes.map (·.id)) :
    checkAcyclic nodes = .ok () :=
  checkFrom_ok hasc hrank (List.Subset.refl _) fun _ => by simp

/-- The children the reducer gives to the node `i`. -/
def childIds (es : List (NodeId × NodeId)) (i : NodeId) : List NodeId :=
  (es.filter fun e => e.1 = i).map Prod.snd

theorem foldl_addChild (es : List (NodeId × NodeId)) (nodes : List SessionNode) :
    es.foldl addChild nodes =
      nodes.map fun n => { n with children := n.children ++ childIds es n.id } := by
  induction es generalizing nodes with
  | nil => simp [childIds]
  | cons e es ih =>
    rw [List.foldl_cons, ih, addChild, List.map_map]
    refine List.map_congr_left fun n _ => ?_
    by_cases h : n.id = e.1
    · simp [childIds, h]
    · simp [childIds, h, Ne.symm h]

theorem childIds_eq_nil {nodes : List SessionNode} {i : NodeId} :
    childIds (edges nodes) i = [] ↔ ∀ n ∈ nodes, n.parentId ≠ some i := by
  simp only [childIds, List.map_eq_nil_iff, List.filter_eq_nil_iff, edges, List.mem_filterMap,
    Option.map_eq_some_iff]
  constructor
  · intro h n hn hp
    exact h (i, n.id) ⟨n, hn, i, hp, rfl⟩ (by simp)
  · rintro h _ ⟨n, hn, p, hp, rfl⟩
    have hne : p ≠ i := fun he => h n hn (he ▸ hp)
    simp [hne]

/-- The tree of a grown log. -/
def treeOf (log : List SessionEntry) (sessionId : String) (root : Option NodeId) : SessionTree :=
  ⟨sessionId, root, (edges (insertAll [] log)).foldl addChild (insertAll [] log)⟩

theorem mem_insertAll_nil {log : List SessionEntry} {n : SessionNode} :
    n ∈ insertAll [] log ↔ ∃ e ∈ log, e.node = n := by simp [mem_insertAll]

theorem ascending_insertAll_nil {log : List SessionEntry}
    (hnd : (log.map SessionEntry.id).Nodup) : Ascending (insertAll [] log) :=
  ascending_insertAll List.Pairwise.nil hnd (by simp)

/-- A rooted log reduces. -/
theorem reduceFor_rooted {log : List SessionEntry} (h : RootedLog log) (sessionId : String) :
    ∃ root, reduceFor log sessionId = .ok (treeOf log sessionId root) := by
  have hroot : ∀ e ∈ log, e.parentId = none →
      (none : Option NodeId) = none ∧ ∀ r ∈ log, r.parentId = none → e = r :=
    fun e he hne => ⟨rfl, fun r hr hnr => h.oneRoot e he r hr hne hnr⟩
  have hfresh : ∀ e ∈ log, ∀ m ∈ ([] : List SessionNode), m.id ≠ e.id := by simp
  obtain ⟨root, hins⟩ := insertEntries_ok h.nodup hfresh hroot
  obtain ⟨rank, hrank⟩ := h.exists_rank
  have hparent : ∀ n ∈ insertAll [] log, ∀ p ∈ n.parentId,
      rank p < rank n.id ∧ p ∈ (insertAll [] log).map (·.id) := by
    intro n hn p hp
    obtain ⟨e, he, rfl⟩ := mem_insertAll_nil.mp hn
    obtain ⟨q, hq, rfl⟩ := List.mem_map.mp (h.parent_mem he hp)
    exact ⟨hrank e he _ hp, List.mem_map.mpr ⟨q.node, mem_insertAll_nil.mpr ⟨q, hq, rfl⟩, rfl⟩⟩
  have hmissing : missingParent (insertAll [] log) = none :=
    missingParent_eq_none fun n hn p hp => List.mem_map.mp (hparent n hn p hp).2
  refine ⟨root, ?_⟩
  simp only [reduceFor, hins, hmissing, checkAcyclic_ok (ascending_insertAll_nil h.nodup) hparent]
  rfl

theorem reduceFor_grown {log : List SessionEntry} (h : GrownLog log) (sessionId : String) :
    ∃ root, reduceFor log sessionId = .ok (treeOf log sessionId root) :=
  reduceFor_rooted h.rooted sessionId

/-- From `i` the parents lead to a root. -/
def Reached (log : List SessionEntry) (i : Option NodeId) : Prop := ∃ es, ChainTo log i es

/-- A way up that ends without an error shows that everything on it is reached. -/
theorem climb_reached {log : List SessionEntry} (hnd : (log.map SessionEntry.id).Nodup)
    (hparent : ∀ e ∈ log, ∀ p ∈ e.parentId, p ∈ log.map SessionEntry.id) {fuel : ℕ}
    {state state' : NodeId → Colour} {path path' : List NodeId} {cursor : Option NodeId}
    (hcursor : ∀ i ∈ cursor, i ∈ log.map SessionEntry.id)
    (hdone : ∀ i, state i = .done → Reached log (some i))
    (hpath : Reached log cursor → ∀ i ∈ path, Reached log (some i))
    (h : climb (insertAll [] log) fuel state path cursor = .ok (state', path')) :
    Reached log cursor ∧ (∀ i ∈ path', Reached log (some i)) ∧
      ∀ i, state' i = .done → Reached log (some i) := by
  induction fuel generalizing state path cursor with
  | zero =>
    cases cursor with
    | none =>
      cases h
      exact ⟨⟨[], .root⟩, hpath ⟨[], .root⟩, hdone⟩
    | some i => cases h
  | succ fuel ih =>
    cases cursor with
    | none =>
      cases h
      exact ⟨⟨[], .root⟩, hpath ⟨[], .root⟩, hdone⟩
    | some i =>
      cases hs : state i with
      | inProgress =>
        simp only [climb, hs] at h
        cases h
      | done =>
        simp only [climb, hs] at h
        cases h
        exact ⟨hdone i hs, hpath (hdone i hs), hdone⟩
      | unvisited =>
        simp only [climb, hs] at h
        obtain ⟨e, he, rfl⟩ := List.mem_map.mp (hcursor i rfl)
        have hnode : getNode (insertAll [] log) e.id = some e.node :=
          (ascending_insertAll_nil hnd).getNode_eq (mem_insertAll_nil.mpr ⟨e, he, rfl⟩)
        rw [hnode, Option.bind_some] at h
        have hup : Reached log e.parentId → Reached log (some e.id) := by
          rintro ⟨es, hes⟩
          exact ⟨es ++ [e], .node he hes⟩
        obtain ⟨hreached, hpath', hdone'⟩ := ih (hparent e he)
          (fun j hj => hdone j (by
            rw [Function.update_apply] at hj
            split_ifs at hj
            exact hj))
          (fun hparents j hj => by
            rw [List.mem_append, List.mem_singleton] at hj
            rcases hj with hj | rfl
            · exact hpath (hup hparents) j hj
            · exact hup hparents) h
        exact ⟨hup hreached, hpath', hdone'⟩

theorem checkFrom_reached {log : List SessionEntry} (hnd : (log.map SessionEntry.id).Nodup)
    (hparent : ∀ e ∈ log, ∀ p ∈ e.parentId, p ∈ log.map SessionEntry.id) {starts : List NodeId}
    (hstarts : starts ⊆ log.map SessionEntry.id) {state : NodeId → Colour}
    (hdone : ∀ i, state i = .done → Reached log (some i))
    (h : checkFrom (insertAll [] log) state starts = .ok ()) :
    ∀ i ∈ starts, Reached log (some i) := by
  induction starts generalizing state with
  | nil => exact List.forall_mem_nil _
  | cons s starts ih =>
    obtain ⟨hs, hrest⟩ := List.cons_subset.mp hstarts
    rw [checkFrom] at h
    split_ifs at h with hcolour
    · exact List.forall_mem_cons.mpr ⟨hdone s hcolour, ih hrest hdone h⟩
    · cases hc : climb (insertAll [] log) ((insertAll [] log).length + 1) state [] (some s) with
      | error e =>
        simp only [hc] at h
        cases h
      | ok r =>
        obtain ⟨state', path'⟩ := r
        simp only [hc] at h
        obtain ⟨hreached, hpath', hdone'⟩ := climb_reached hnd hparent
          (fun i hi => Option.some.inj hi ▸ hs) hdone (fun _ => List.forall_mem_nil _) hc
        refine List.forall_mem_cons.mpr ⟨hreached, ih hrest (fun i hi => ?_) h⟩
        rw [markDone_eq] at hi
        split_ifs at hi with hmem
        · exact hpath' i hmem
        · exact hdone' i hi

/-- The reducer takes the rooted logs and no others. -/
theorem rooted_of_reduceFor {log : List SessionEntry} {sessionId : String} {tree : SessionTree}
    (h : reduceFor log sessionId = .ok tree) : RootedLog log := by
  unfold reduceFor at h
  cases hins : insertEntries [] none log with
  | error e =>
    simp only [hins] at h
    cases h
  | ok r =>
    obtain ⟨nodes, root⟩ := r
    obtain ⟨rfl, hnd, -, hroot⟩ := insertEntries_inv hins
    simp only [hins] at h
    cases hm : missingParent (insertAll [] log) with
    | some p =>
      simp only [hm] at h
      cases h
    | none =>
      simp only [hm] at h
      cases hacyclic : checkAcyclic (insertAll [] log) with
      | error e =>
        simp only [hacyclic] at h
        cases h
      | ok u =>
        have hparent : ∀ e ∈ log, ∀ p ∈ e.parentId, p ∈ log.map SessionEntry.id := by
          intro e he p hp
          have hnode : e.node ∈ insertAll [] log := mem_insertAll_nil.mpr ⟨e, he, rfl⟩
          obtain ⟨m, hmem, rfl⟩ := parent_of_missingParent hm hnode hp
          obtain ⟨q, hq, rfl⟩ := mem_insertAll_nil.mp hmem
          exact List.mem_map_of_mem hq
        have hstarts : (insertAll [] log).map (·.id) ⊆ log.map SessionEntry.id := by
          intro i hi
          obtain ⟨n, hn, rfl⟩ := List.mem_map.mp hi
          obtain ⟨e, he, rfl⟩ := mem_insertAll_nil.mp hn
          exact List.mem_map_of_mem he
        have hall := checkFrom_reached hnd hparent hstarts (fun i hi => by cases hi) hacyclic
        refine ⟨hnd, fun e he => ?_, fun e he r hr hne hnr => (hroot e he hne).2 r hr hnr⟩
        cases hp : e.parentId with
        | none => exact ⟨[], .root⟩
        | some p =>
          obtain ⟨q, hq, rfl⟩ := List.mem_map.mp (hparent e he p hp)
          exact hall q.id (List.mem_map.mpr ⟨q.node, mem_insertAll_nil.mpr ⟨q, hq, rfl⟩, rfl⟩)

/-- Whatever reduces has the nodes of its entries. -/
theorem reduceFor_treeOf {log : List SessionEntry} {sessionId : String} {tree : SessionTree}
    (h : reduceFor log sessionId = .ok tree) : ∃ root, tree = treeOf log sessionId root := by
  unfold reduceFor at h
  cases hins : insertEntries [] none log with
  | error e =>
    simp only [hins] at h
    cases h
  | ok r =>
    obtain ⟨nodes, root⟩ := r
    obtain rfl := (insertEntries_inv hins).1
    simp only [hins] at h
    split at h
    · cases h
    · split at h
      · cases h
      · exact ⟨root, (Except.ok.inj h).symm⟩

/-- The node a tree has for an entry. -/
def treeNode (log : List SessionEntry) (e : SessionEntry) : SessionNode :=
  { e.node with children := childIds (edges (insertAll [] log)) e.id }

theorem isEmpty_children {log : List SessionEntry} (e : SessionEntry) :
    (treeNode log e).children.isEmpty = true ↔ LeafOf log e.id := by
  rw [List.isEmpty_iff]
  change childIds _ _ = [] ↔ _
  rw [childIds_eq_nil]
  simp only [mem_insertAll, List.not_mem_nil, false_or]
  constructor
  · intro h r hr
    exact h r.node ⟨r, hr, rfl⟩
  · rintro h _ ⟨r, hr, rfl⟩
    exact h r hr

theorem nodes_treeOf (log : List SessionEntry) (sessionId : String) (root : Option NodeId) :
    (treeOf log sessionId root).nodes =
      (insertAll [] log).map fun n =>
        { n with children := n.children ++ childIds (edges (insertAll [] log)) n.id } :=
  foldl_addChild _ _

theorem length_treeOf (log : List SessionEntry) (sessionId : String) (root : Option NodeId) :
    (treeOf log sessionId root).nodes.length = log.length := by
  simp [nodes_treeOf, length_insertAll]

theorem mem_treeOf {log : List SessionEntry} {sessionId : String} {root : Option NodeId}
    {n : SessionNode} :
    n ∈ (treeOf log sessionId root).nodes ↔ ∃ e ∈ log, treeNode log e = n := by
  simp only [nodes_treeOf, List.mem_map, mem_insertAll, List.not_mem_nil, false_or]
  constructor
  · rintro ⟨_, ⟨e, he, rfl⟩, rfl⟩
    exact ⟨e, he, rfl⟩
  · rintro ⟨e, he, rfl⟩
    exact ⟨e.node, ⟨e, he, rfl⟩, rfl⟩

/-- Looking an entry up finds its node. -/
theorem getNode_treeOf {log : List SessionEntry} (h : RootedLog log) {sessionId : String}
    {root : Option NodeId} {e : SessionEntry} (he : e ∈ log) :
    getNode (treeOf log sessionId root).nodes e.id = some (treeNode log e) := by
  have hasc : Ascending (treeOf log sessionId root).nodes := by
    rw [nodes_treeOf]
    apply List.pairwise_map.mpr
    exact ascending_insertAll_nil h.nodup
  exact hasc.getNode_eq (mem_treeOf.mpr ⟨e, he, rfl⟩)

theorem ascend_treeOf {log : List SessionEntry} (h : RootedLog log) {sessionId : String}
    {root : Option NodeId} {head : Option NodeId} {es : List SessionEntry}
    (hc : ChainTo log head es) {fuel : ℕ} (hfuel : es.length ≤ fuel) :
    (treeOf log sessionId root).ascend fuel head = some (es.map (·.message)).reverse := by
  induction hc generalizing fuel with
  | root => cases fuel <;> rfl
  | @node e es he _ ih =>
    rw [List.length_append, List.length_singleton] at hfuel
    obtain ⟨fuel, rfl⟩ : ∃ k, fuel = k + 1 := ⟨fuel - 1, by omega⟩
    rw [SessionTree.ascend, getNode_treeOf h he, Option.bind_some]
    have hp : (treeNode log e).parentId = e.parentId := rfl
    rw [hp, ih (by omega)]
    simp [treeNode, SessionEntry.node]

/-- The branch of a node is the chain of its entry. -/
theorem branch_treeOf {log : List SessionEntry} (h : RootedLog log) {sessionId : String}
    {root : Option NodeId} {i : NodeId} {es : List SessionEntry} (hc : ChainTo log (some i) es) :
    (treeOf log sessionId root).branch i = some (es.map (·.message)) := by
  have hlen := hc.length_le h.nodup
  rw [SessionTree.branch, ascend_treeOf h hc (by rw [length_treeOf]; omega)]
  simp

theorem headPath_treeOf {log : List SessionEntry} (h : RootedLog log) {sessionId : String}
    {root head : Option NodeId} {es : List SessionEntry} (hc : ChainTo log head es) :
    (treeOf log sessionId root).headPath head = some (es.map (·.message)) := by
  cases head with
  | none => rw [hc.eq_nil]; rfl
  | some i => exact branch_treeOf h hc

theorem pathTo_treeOf {log : List SessionEntry} (h : RootedLog log) {sessionId : String}
    {root : Option NodeId} {i : NodeId} {es : List SessionEntry} (hc : ChainTo log (some i) es)
    (hleaf : LeafOf log i) :
    (treeOf log sessionId root).pathTo i = some (es.map (·.message)) := by
  obtain ⟨e, he, rfl⟩ := List.mem_map.mp hc.mem_ids
  rw [SessionTree.pathTo, getNode_treeOf h he, Option.bind_some,
    if_pos ((isEmpty_children e).mpr hleaf), branch_treeOf h hc]

theorem pathTo_treeOf_inner {log : List SessionEntry} (h : RootedLog log) {sessionId : String}
    {root : Option NodeId} {e : SessionEntry} (he : e ∈ log) (hleaf : ¬ LeafOf log e.id) :
    (treeOf log sessionId root).pathTo e.id = none := by
  rw [SessionTree.pathTo, getNode_treeOf h he, Option.bind_some,
    if_neg fun hc => hleaf ((isEmpty_children e).mp hc)]

theorem mem_leaves_treeOf {log : List SessionEntry} {sessionId : String} {root : Option NodeId}
    {i : NodeId} : i ∈ (treeOf log sessionId root).leaves ↔ ∃ e ∈ log, e.id = i ∧ LeafOf log i := by
  simp only [SessionTree.leaves, List.mem_map, List.mem_filter, mem_treeOf]
  constructor
  · rintro ⟨_, ⟨⟨e, he, rfl⟩, hempty⟩, rfl⟩
    exact ⟨e, he, rfl, (isEmpty_children e).mp hempty⟩
  · rintro ⟨e, he, rfl, hleaf⟩
    exact ⟨_, ⟨⟨e, he, rfl⟩, (isEmpty_children e).mpr hleaf⟩, rfl⟩

end Guigu
