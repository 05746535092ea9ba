import Guigu.Core.Session.SharedRefinement

/-! Where a resumed lane starts. -/
namespace Guigu

inductive ServerError where
  | sessionNotFound (sessionId : String)
  | laneNotFound (laneId : LaneId)
  | laneAlreadyExists (laneId : LaneId)
  | duplicateSession (sessionId : String)
  | session (error : SessionError)
  | agent (message : String)
  | protocol (message : String)
  deriving DecidableEq, Repr

/-- Resume at a named head, which must be a leaf. -/
def resumeAt (tree : SessionTree) (h : NodeId) :
    Except ServerError (Option NodeId × List Message) :=
  match tree.pathTo h with
  | none => .error (.protocol s!"resume head {h} is not a leaf node (unknown or internal)")
  | some path => .ok (some h, path)

/-- The head and the transcript of a resumed lane: an explicit head first, then the one on
record for the lane, then the leaf with the largest identifier. -/
def resolveResumeHead (tree : SessionTree) (head : Option NodeId)
    (persisted : Option (Option NodeId)) : Except ServerError (Option NodeId × List Message) :=
  match head, persisted with
  | some h, _ => resumeAt tree h
  | none, some (some h) => resumeAt tree h
  | none, some none => .ok (none, [])
  | none, none =>
    match tree.leaves.max? with
    | none => .ok (none, [])
    | some leaf =>
      match tree.pathTo leaf with
      | none => .error (.protocol "active leaf path unavailable")
      | some path => .ok (some leaf, path)

/-- Head and transcript of a lane that is resumed without naming a head. -/
def SharedSessionStorage.resumed (storage : SharedSessionStorage) (laneId : LaneId) :
    Except ServerError (Option NodeId × List Message) :=
  match storage.snapshot with
  | .error e => .error (.session e)
  | .ok ((tree, heads), _) => resolveResumeHead tree none (heads laneId)

/-- The same over the bytes of the file. -/
def SharedFile.resumed (st : SharedFile) (file : FileBytes) (laneId : LaneId) :
    Except ServerError (Option NodeId × List Message) :=
  match st.snapshot file with
  | .error e => .error (.session e)
  | .ok ((tree, heads), _) => resolveResumeHead tree none (heads laneId)

theorem SharedFile.resumed_eq {st : SharedFile} {file : FileBytes} {records : List SessionRecord}
    (h : readRecords file = .ok records) (laneId : LaneId) :
    st.resumed file laneId = (st.withRecords records).resumed laneId := by
  simp only [SharedFile.resumed, SharedFile.snapshot_eq, h, SharedSessionStorage.resumed]
  cases (st.withRecords records).snapshot <;> rfl

/-- A head on record resumes at its own chain when it is a leaf, or when it is no node. -/
theorem resolveResumeHead_persisted {log : List SessionEntry} (h : GrownLog log)
    {sessionId : String} {root head : Option NodeId} {es : List SessionEntry}
    (hc : ChainTo log head es) (hleaf : ∀ i ∈ head, LeafOf log i) :
    resolveResumeHead (treeOf log sessionId root) none (some head) =
      .ok (head, es.map (·.message)) := by
  cases head with
  | none => rw [hc.eq_nil]; rfl
  | some i => simp only [resolveResumeHead, resumeAt, pathTo_treeOf h.rooted hc (hleaf i rfl)]

/-- Without a head on record the newest leaf is taken, which has a path. -/
theorem resolveResumeHead_active {log : List SessionEntry} (h : GrownLog log) {sessionId : String}
    {root : Option NodeId} :
    ∃ r, resolveResumeHead (treeOf log sessionId root) none none = .ok r := by
  simp only [resolveResumeHead]
  cases hmax : (treeOf log sessionId root).leaves.max? with
  | none => exact ⟨_, rfl⟩
  | some leaf =>
    obtain ⟨e, he, rfl, hleaf⟩ := mem_leaves_treeOf.mp (List.max?_mem hmax)
    obtain ⟨es, hes⟩ := h.exists_chain (List.mem_map_of_mem (f := SessionEntry.id) he)
    simp only [pathTo_treeOf h.rooted hes hleaf]
    exact ⟨_, rfl⟩

/-- It is the newest node, when that is a leaf. -/
theorem resolveResumeHead_newest {log : List SessionEntry} (h : RootedLog log)
    {sessionId : String} {root head : Option NodeId} {es : List SessionEntry}
    (hc : ChainTo log head es) (hnewest : (log.map SessionEntry.id).max? = head)
    (hleaf : ∀ i ∈ head, LeafOf log i) :
    resolveResumeHead (treeOf log sessionId root) none none =
      .ok (head, es.map (·.message)) := by
  have hmax : (treeOf log sessionId root).leaves.max? = head := by
    cases head with
    | none =>
      rw [List.max?_eq_none_iff, List.map_eq_nil_iff] at hnewest
      rw [List.max?_eq_none_iff, List.eq_nil_iff_forall_not_mem]
      intro i hi
      obtain ⟨e, he, -⟩ := mem_leaves_treeOf.mp hi
      rw [hnewest] at he
      cases he
    | some i =>
      rw [List.max?_eq_some_iff] at hnewest ⊢
      obtain ⟨hmem, hle⟩ := hnewest
      obtain ⟨e, he, hid⟩ := List.mem_map.mp hmem
      refine ⟨mem_leaves_treeOf.mpr ⟨e, he, hid, hleaf i rfl⟩, ?_⟩
      intro j hj
      obtain ⟨e', he', rfl, -⟩ := mem_leaves_treeOf.mp hj
      exact hle _ (List.mem_map_of_mem he')
  cases head with
  | none =>
    simp only [resolveResumeHead, hmax]
    rw [hc.eq_nil]
    rfl
  | some i => simp only [resolveResumeHead, hmax, pathTo_treeOf h hc (hleaf i rfl)]

/-- Every node of a log that reduces is younger than the one above it: without a head on record, a
lane resumes at the node with the largest identifier, at the end of its path from the root. -/
theorem resolveResumeHead_latest {log : List SessionEntry} {sessionId : String}
    {tree : SessionTree} (hids : ∀ e ∈ log, ∀ p ∈ e.parentId, p < e.id)
    (h : reduceFor log sessionId = .ok tree) :
    ∃ head es, resolveResumeHead tree none none = .ok (head, es.map (·.message)) ∧
      ChainTo log head es ∧ head = (log.map SessionEntry.id).max? ∧
      (log = [] → head = none ∧ es = []) ∧
      (log.Pairwise (fun e f => e.id < f.id) → head = log.getLast?.map SessionEntry.id) := by
  have hrooted := rooted_of_reduceFor h
  obtain ⟨root, rfl⟩ := reduceFor_treeOf h
  cases hmax : (log.map SessionEntry.id).max? with
  | none =>
    have hnil : log = [] := List.map_eq_nil_iff.mp (List.max?_eq_none_iff.mp hmax)
    exact ⟨none, [], resolveResumeHead_newest hrooted .root hmax (by simp), .root, rfl,
      fun _ => ⟨rfl, rfl⟩, fun _ => by rw [hnil]; rfl⟩
  | some i =>
    obtain ⟨hmem, hle⟩ := List.max?_eq_some_iff.mp hmax
    have hleaf : LeafOf log i :=
      Lineage.leaf_of_forall_le hids fun e he => hle _ (List.mem_map_of_mem he)
    obtain ⟨es, hes⟩ := hrooted.exists_chain hmem
    have hresumed : resolveResumeHead (treeOf log sessionId root) none none =
        .ok (some i, es.map (·.message)) :=
      resolveResumeHead_newest hrooted hes hmax (by simpa using hleaf)
    refine ⟨some i, es, hresumed, hes, rfl, ?_, fun hasc => ?_⟩
    · rintro rfl
      cases hmem
    · rcases List.eq_nil_or_concat log with rfl | ⟨front, e, rfl⟩
      · cases hmem
      · rw [List.concat_eq_append, List.pairwise_append] at hasc
        have hlast : i = e.id := by
          apply le_antisymm
          · obtain ⟨f, hf, rfl⟩ := List.mem_map.mp hmem
            rw [List.concat_eq_append, List.mem_append, List.mem_singleton] at hf
            rcases hf with hf | rfl
            · exact (hasc.2.2 f hf e (List.mem_singleton.mpr rfl)).le
            · exact le_refl _
          · exact hle _ (List.mem_map_of_mem (by simp))
        simp [hlast]

/-- Two nodes under one root; the younger of them reached the log first. -/
def forkedLog : List SessionEntry :=
  [⟨0, none, helloMessage⟩, ⟨2, some 0, helloMessage⟩, ⟨1, some 0, helloMessage⟩]

theorem resolveResumeHead_latest_forked :
    ∃ es, resolveResumeHead (treeOf forkedLog "" (some 0)) none none =
        .ok (some 2, es.map (·.message)) ∧ ChainTo forkedLog (some 2) es := by
  have hids : ∀ e ∈ forkedLog, ∀ p ∈ e.parentId, p < e.id := by simp [forkedLog]
  have hreduce : reduceFor forkedLog "" = .ok (treeOf forkedLog "" (some 0)) := by rfl
  obtain ⟨head, es, hresumed, hes, hhead, -, -⟩ := resolveResumeHead_latest hids hreduce
  have hmax : (forkedLog.map SessionEntry.id).max? = some 2 := rfl
  rw [hhead, hmax] at hresumed hes
  exact ⟨es, hresumed, hes⟩

/-- A resumed head is no node, or a leaf with its path as the transcript. -/
theorem resolveResumeHead_ok {log : List SessionEntry} (h : GrownLog log) {sessionId : String}
    {root head : Option NodeId} {persisted : Option (Option NodeId)}
    {head' : Option NodeId} {transcript : List Message}
    (hr : resolveResumeHead (treeOf log sessionId root) head persisted =
      .ok (head', transcript)) :
    ∃ es, ChainTo log head' es ∧ transcript = es.map (·.message) := by
  have hpath : ∀ i path, (treeOf log sessionId root).pathTo i = some path →
      ∃ es, ChainTo log (some i) es ∧ path = es.map (·.message) := by
    intro i path hp
    obtain ⟨n, hn, hrest⟩ := Option.bind_eq_some_iff.mp hp
    obtain ⟨hmem, rfl⟩ := mem_of_getNode hn
    obtain ⟨e, he, rfl⟩ := mem_treeOf.mp hmem
    obtain ⟨es, hes⟩ := h.exists_chain (List.mem_map_of_mem (f := SessionEntry.id) he)
    split_ifs at hrest
    have hbranch : (treeOf log sessionId root).branch (treeNode log e).id =
        some (es.map (·.message)) := branch_treeOf h.rooted hes
    exact ⟨es, hes, Option.some.inj (hrest.symm.trans hbranch)⟩
  have hat : ∀ i, resumeAt (treeOf log sessionId root) i = .ok (head', transcript) →
      ∃ es, ChainTo log head' es ∧ transcript = es.map (·.message) := by
    intro i hi
    unfold resumeAt at hi
    cases hp : (treeOf log sessionId root).pathTo i with
    | none =>
      rw [hp] at hi
      cases hi
    | some path =>
      rw [hp] at hi
      cases hi
      exact hpath i _ hp
  cases head with
  | some i => exact hat i hr
  | none =>
    cases persisted with
    | some p =>
      cases p with
      | some i => exact hat i hr
      | none =>
        cases hr
        exact ⟨[], .root, rfl⟩
    | none =>
      simp only [resolveResumeHead] at hr
      cases hmax : (treeOf log sessionId root).leaves.max? with
      | none =>
        simp only [hmax] at hr
        cases hr
        exact ⟨[], .root, rfl⟩
      | some leaf =>
        simp only [hmax] at hr
        cases hp : (treeOf log sessionId root).pathTo leaf with
        | none =>
          simp only [hp] at hr
          cases hr
        | some path =>
          simp only [hp] at hr
          cases hr
          exact hpath leaf _ hp

end Guigu
