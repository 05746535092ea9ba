import Guigu.Core.Session.SharedFile

/-! Snapshots taken while lanes write: tree and heads are of one front part of the log, and every
head is a node, whatever lines are cut short. -/
namespace Guigu

open Runs

/-- Every head on record is a node on record. -/
def HeadsBound (rs : List SessionRecord) : Prop :=
  ∀ laneId id, laneHeads rs laneId = some (some id) → id ∈ nodeIds rs

theorem HeadsBound.nil : HeadsBound [] := fun _ _ h => by cases h

theorem HeadsBound.snoc {rs : List SessionRecord} (h : HeadsBound rs) {r r' : SessionRecord}
    (hr : r.Resembles r') (hhead : ∀ lh, r = .laneHead lh → ∀ id ∈ lh.head, id ∈ nodeIds rs) :
    HeadsBound (rs ++ [r']) := by
  intro laneId id hid
  rw [nodeIds_append]
  apply List.mem_append_left
  cases hr with
  | message _ =>
    rw [laneHeads_message] at hid
    exact h laneId id hid
  | laneHead lh =>
    rw [laneHeads_laneHead, Function.update_apply] at hid
    split_ifs at hid
    · exact hhead lh rfl id (Option.some.inj hid)
    · exact h laneId id hid

/-- A file whose heads are nodes for every reader. As long as no line is damaged, the identifiers
in use are nodes as well. -/
inductive Bound (known : NodeId → Prop) (file : FileBytes) : Prop
  | complete {rs : List SessionRecord} : CompleteFile file rs → HeadsBound rs →
      (∀ id, known id → id ∈ nodeIds rs) → Bound known file
  | damaged {rs more : List SessionRecord} : Damaged file rs more → HeadsBound rs →
      HeadsBound (rs ++ more) → Bound known file

namespace Bound

variable {known known' : NodeId → Prop} {file : FileBytes}

theorem mono (h : Bound known file) (hk : ∀ id, known' id → known id) : Bound known' file := by
  cases h with
  | complete hfile hbound hknown => exact .complete hfile hbound fun id hid => hknown id (hk id hid)
  | damaged hfile hbound hmore => exact .damaged hfile hbound hmore

theorem readRecords (h : Bound known file) {records : List SessionRecord}
    (hread : readRecords file = .ok records) : HeadsBound records := by
  cases h with
  | complete hfile hbound _ =>
    rw [hfile.readRecords] at hread
    exact Except.ok.inj hread ▸ hbound
  | damaged hfile _ hmore => exact hfile.readRecords hread ▸ hmore

/-- Nodes that are read are nodes in use. -/
theorem know (h : Bound known file) {records : List SessionRecord}
    (hread : Guigu.readRecords file = .ok records) :
    Bound (fun id => known id ∨ id ∈ nodeIds records) file := by
  cases h with
  | complete hfile hbound hknown =>
    rw [hfile.readRecords] at hread
    obtain rfl := Except.ok.inj hread
    exact .complete hfile hbound fun id hid => hid.elim (hknown id) fun hmem => hmem
  | damaged hfile hbound hmore => exact .damaged hfile hbound hmore

/-- Whatever part of its line is written, a record whose head is in use is no harm, and a message
whose line is all written may be used as a head. -/
theorem write (h : Bound known file) {r : SessionRecord} {k : ℕ}
    (hr : ∀ lh, r = .laneHead lh → ∀ id ∈ lh.head, known id)
    (hk : ∀ id, known' id → known id ∨ r.line.length ≤ k ∧ id ∈ nodeIds [r]) :
    Bound known' (file ++ r.line.take k) := by
  cases h with
  | @complete rs hfile hbound hknown =>
    have hhead : ∀ lh, r = .laneHead lh → ∀ id ∈ lh.head, id ∈ nodeIds rs :=
      fun lh hlh id hid => hknown id (hr lh hlh id hid)
    rcases hfile.write r k with hnil | ⟨r', hread, hfile'⟩ | ⟨more, hmore, hfile'⟩
    · rw [hnil, List.append_nil]
      refine .complete hfile hbound ?_
      intro id hid
      rcases hk id hid with hid | ⟨hlen, -⟩
      · exact hknown id hid
      · rw [List.take_of_length_le hlen, SessionRecord.line] at hnil
        simp at hnil
    · have hlike := SessionRecord.resembles_of_fromStr hread
      refine .complete hfile' (hbound.snoc hlike hhead) ?_
      intro id hid
      rw [nodeIds_append, hlike.nodeIds]
      rcases hk id hid with hid | ⟨-, hid⟩
      · exact List.mem_append_left _ (hknown id hid)
      · exact List.mem_append_right _ hid
    · refine .damaged hfile' hbound ?_
      rcases hmore with rfl | rfl
      · rw [List.append_nil]
        exact hbound
      · cases hread : SessionRecord.fromStr r.text with
        | none =>
          rw [Option.toList_none, List.append_nil]
          exact hbound
        | some r' => exact hbound.snoc (SessionRecord.resembles_of_fromStr hread) hhead
  | damaged hfile hbound hmore =>
    obtain ⟨more', hcut, hfile'⟩ := hfile.write r k
    refine .damaged hfile' hbound ?_
    rcases hcut with rfl | rfl
    · rw [List.append_nil]
      exact hbound
    · exact hmore

theorem line (h : Bound known file) {r : SessionRecord}
    (hr : ∀ lh, r = .laneHead lh → ∀ id ∈ lh.head, known id)
    (hk : ∀ id, known' id → known id ∨ id ∈ nodeIds [r]) : Bound known' (file ++ r.line) := by
  have hall : Bound known' (file ++ r.line.take r.line.length) := by
    apply h.write hr
    exact fun id hid => (hk id hid).imp_right fun hmem => ⟨le_refl _, hmem⟩
  rwa [List.take_length] at hall

theorem append (h : Bound known file) {st : JsonlSessionStorage} (hlock : st.fileLock = false)
    (parentId : Option NodeId) (message : Message) (out : WriteOutcome) :
    Bound (fun id => known id ∨ (Guigu.append st file parentId message out).1 = .ok id)
      (Guigu.append st file parentId message out).2.2 := by
  have hplain : Guigu.append st file parentId message out =
      appendClaimed st file parentId message out := by
    rw [Guigu.append, hlock, if_neg Bool.false_ne_true]
  rw [hplain]
  rcases appendClaimed_cases st file parentId message out with
    ⟨-, hc⟩ | ⟨-, -, hc⟩ | ⟨k, -, -, hc⟩
  · rw [hc]
    exact h.mono fun id hid => hid.resolve_right fun herr => by cases herr
  · rw [hc]
    apply h.line
    · intro lh hlh
      cases hlh
    · intro id hid
      refine hid.imp_right fun hok => ?_
      rw [← Except.ok.inj hok]
      exact List.mem_cons_self
  · rw [hc]
    apply h.write
    · intro lh hlh
      cases hlh
    · exact fun id hid => .inl (hid.resolve_right fun herr => by cases herr)

theorem appendLaneHead (h : Bound known file) (laneId : LaneId) {head : Option NodeId}
    (hhead : ∀ id ∈ head, known id) (out : WriteOutcome) :
    Bound known (Guigu.appendLaneHead file laneId head out).2 := by
  have hr : ∀ lh, SessionRecord.laneHead ⟨laneId, head⟩ = .laneHead lh → ∀ id ∈ lh.head,
      known id := by
    intro lh hlh
    cases hlh
    exact hhead
  cases out with
  | done => exact h.line hr fun id hid => .inl hid
  | torn k => exact h.write hr fun id hid => .inl hid

end Bound

/-- Without the lock an append only adds to the file. -/
theorem append_grows {st : JsonlSessionStorage} (hlock : st.fileLock = false) (file : FileBytes)
    (parentId : Option NodeId) (message : Message) (out : WriteOutcome) :
    (append st file parentId message out).2.1.fileLock = false ∧
      file <+: (append st file parentId message out).2.2 := by
  have hplain : append st file parentId message out =
      appendClaimed st file parentId message out := by
    rw [append, hlock, if_neg Bool.false_ne_true]
  rw [hplain]
  rcases appendClaimed_cases st file parentId message out with
    ⟨-, hc⟩ | ⟨-, -, hc⟩ | ⟨k, -, -, hc⟩ <;> rw [hc]
  · exact ⟨hlock, List.prefix_refl _⟩
  · exact ⟨hlock, List.prefix_append _ _⟩
  · exact ⟨hlock, List.prefix_append _ _⟩

theorem appendLaneHead_grows (file : FileBytes) (laneId : LaneId) (head : Option NodeId)
    (out : WriteOutcome) : file <+: (appendLaneHead file laneId head out).2 := by
  cases out <;> exact List.prefix_append _ _

theorem load_reads {st st' : JsonlSessionStorage} {file : FileBytes} {tree : SessionTree}
    (h : load st file = .ok (tree, st')) :
    st'.sessionId = st.sessionId ∧ st'.fileLock = st.fileLock ∧ ∃ records,
      readRecords file = .ok records ∧
        reduceFor (entriesOf records) st.sessionId = .ok tree := by
  unfold load at h
  cases hread : readRecords file with
  | error e =>
    simp only [hread] at h
    cases h
  | ok records =>
    simp only [hread, loadRecords] at h
    cases hred : reduceFor (entriesOf records) st.sessionId with
    | error e =>
      simp only [hred] at h
      cases h
    | ok t =>
      simp only [hred] at h
      split at h
      · cases h
        exact ⟨rfl, rfl, records, rfl, hred⟩
      · split_ifs at h
        · cases h
        · cases h
          exact ⟨rfl, rfl, records, rfl, hred⟩

theorem reduceFor_nodes {records : List SessionRecord} {sessionId : String} {tree : SessionTree}
    (h : reduceFor (entriesOf records) sessionId = .ok tree) :
    tree.sessionId = sessionId ∧ ∀ id, id ∈ nodeIds records ↔ ∃ n ∈ tree.nodes, n.id = id := by
  obtain ⟨root, rfl⟩ := reduceFor_treeOf h
  refine ⟨rfl, fun id => ?_⟩
  constructor
  · intro hid
    obtain ⟨e, he, rfl⟩ := List.mem_map.mp hid
    exact ⟨_, mem_treeOf.mpr ⟨e, he, rfl⟩, rfl⟩
  · rintro ⟨n, hn, rfl⟩
    obtain ⟨e, he, rfl⟩ := mem_treeOf.mp hn
    exact List.mem_map_of_mem he

/-- The head the next writes may put on record. -/
def WriteTask.head : WriteTask → Option NodeId
  | .append _ _ | .appendWithHead _ _ _ => none
  | .appendLaneHead _ _ id => some id
  | .persistInitialHead _ head => head

namespace SharedSession

/-- The identifiers in use: those of lanes, of the holder of the write lock and of snapshots. -/
def Known (s : SharedSession) (id : NodeId) : Prop :=
  (∃ l ∈ s.lanes, l.initial = some id ∨ l.head = some id) ∨
    (∃ t ∈ s.writer, t.head = some id) ∨ ∃ r ∈ s.snapshots, ∃ n ∈ r.tree.nodes, n.id = id

/-- What every step keeps: readers and a writer exclude one another, a tree that is loaded is
still that of the file, and heads are nodes for every reader. -/
structure Ruled (s : SharedSession) : Prop where
  exclusive : s.writer.isSome = true → s.readers = []
  unlocked : ∀ st ∈ s.storage, st.inner.fileLock = false
  bound : Bound s.Known s.file
  reading : ∀ tree, .loadLaneHeads tree ∈ s.readers → ∃ records,
    readRecords s.file = .ok records ∧ reduceFor (entriesOf records) tree.sessionId = .ok tree
  consistent : s.Consistent

variable {s s' : SharedSession}

/-- A step that only changes lanes and the holder of the write lock, within what is known. -/
theorem Ruled.claim (h : Ruled s) {lanes : List LaneCursor} {writer : Option WriteTask}
    (hexclusive : writer.isSome = true → s.readers = [])
    (hknown : ∀ id, Known { s with lanes := lanes, writer := writer } id → s.Known id) :
    Ruled { s with lanes := lanes, writer := writer } :=
  ⟨hexclusive, h.unlocked, h.bound.mono hknown, h.reading, h.consistent⟩

theorem known_snoc {l : LaneCursor} (hl : ∀ id, l.initial = some id ∨ l.head = some id → s.Known id)
    {id : NodeId} (h : Known { s with lanes := s.lanes ++ [l] } id) : s.Known id := by
  rcases h with ⟨l', hl', hid⟩ | h
  · rcases List.mem_append.mp hl' with hl' | hl'
    · exact .inl ⟨l', hl', hid⟩
    · rw [List.mem_singleton.mp hl'] at hid
      exact hl id hid
  · exact .inr h

theorem Ruled.snoc (h : Ruled s) {l : LaneCursor}
    (hl : ∀ id, l.initial = some id ∨ l.head = some id → s.Known id) :
    Ruled { s with lanes := s.lanes ++ [l] } :=
  h.claim h.exclusive fun _ hid => known_snoc hl hid

theorem Ruled.acquire (h : Ruled s) {task : WriteTask}
    (htask : ∀ id, task.head = some id → s.Known id) : Ruled (s.acquire task) := by
  unfold SharedSession.acquire
  split_ifs with hfree
  · apply h.claim
    · exact fun _ => List.isEmpty_iff.mp hfree.2.2
    · intro id hid
      rcases hid with hid | ⟨t, ht, hid⟩ | hid
      · exact .inl hid
      · rw [← Option.some.inj ht] at hid
        exact htask id hid
      · exact .inr (.inr hid)
  · exact h

theorem Ruled.release (h : Ruled s) : Ruled s.release := by
  apply h.claim (fun hwriter => by cases hwriter)
  intro id hid
  rcases hid with hid | ⟨t, ht, -⟩ | hid
  · exact .inl hid
  · cases ht
  · exact .inr (.inr hid)

theorem Ruled.advance (h : Ruled s) (lane : ℕ) {id : NodeId} (hid : s.Known id) :
    Ruled (s.advance lane id) := by
  apply h.claim h.exclusive
  intro id' hid'
  rcases hid' with ⟨l', hl', hid'⟩ | hid'
  · obtain ⟨j, hj⟩ := List.mem_iff_getElem?.mp hl'
    rw [List.getElem?_modify] at hj
    obtain ⟨l, hl, rfl⟩ := Option.map_eq_some_iff.mp hj
    have hmem := List.mem_of_getElem? hl
    split_ifs at hid'
    · rcases hid' with hid' | hid'
      · exact .inl ⟨l, hmem, .inl hid'⟩
      · rw [← Option.some.inj hid']
        exact hid
    · exact .inl ⟨l, hmem, hid'⟩
  · exact .inr hid'

/-- What the holder of the write lock does to the file. -/
theorem Ruled.written (h : Ruled s) (hwriter : s.writer.isSome = true) {file : FileBytes}
    {st : SharedFile} {writer : Option WriteTask} (hunlocked : st.inner.fileLock = false)
    (hgrows : s.file <+: file)
    (hbound : Bound (Known { s with writer := writer }) file) :
    Ruled { s with file := file, storage := some st, writer := writer } := by
  have hreaders := h.exclusive hwriter
  refine ⟨fun _ => hreaders, fun st' hst' => Option.some.inj hst' ▸ hunlocked, hbound, ?_, ?_⟩
  · intro tree hmem
    have hmem' : ReadTask.loadLaneHeads tree ∈ s.readers := hmem
    rw [hreaders] at hmem'
    cases hmem'
  · intro r hr
    obtain ⟨⟨log, records, hlog, hread⟩, hheads⟩ := h.consistent r hr
    exact ⟨⟨log, records, hlog.trans hgrows, hread⟩, hheads⟩

theorem Ruled.writeMessage (h : Ruled s) (hwriter : s.writer.isSome = true) {st : SharedFile}
    (hst : s.storage = some st) (parentId : Option NodeId) (message : Message)
    (out : WriteOutcome) {writer : Option WriteTask}
    (hhead : ∀ t ∈ writer, ∀ id, t.head = some id →
      (s.writeMessage st parentId message out).1 = .ok id) :
    Ruled { (s.writeMessage st parentId message out).2 with writer := writer } := by
  have hlock := h.unlocked st hst
  obtain ⟨hlock', hgrows⟩ := append_grows hlock s.file parentId message out
  apply h.written hwriter hlock' hgrows
  apply (h.bound.append hlock parentId message out).mono
  intro id hid
  rcases hid with hid | ⟨t, ht, hid⟩ | hid
  · exact .inl (.inl hid)
  · exact .inr (hhead t ht id hid)
  · exact .inl (.inr (.inr hid))

theorem Ruled.writeHead (h : Ruled s) (hwriter : s.writer.isSome = true) {st : SharedFile}
    (hst : s.storage = some st) (laneId : LaneId) {head : Option NodeId}
    (hhead : ∀ id ∈ head, s.Known id) (out : WriteOutcome) :
    Ruled (s.writeHead st laneId head out).2 := by
  have hlock := h.unlocked st hst
  have hgrows := appendLaneHead_grows s.file laneId head out
  have hbound := h.bound.appendLaneHead laneId hhead out
  cases out with
  | done => exact h.written hwriter hlock hgrows hbound
  | torn k => exact h.written hwriter hlock hgrows hbound

theorem Ruled.write (h : Ruled s) (out : WriteOutcome) : Ruled (s.write out) := by
  unfold SharedSession.write
  cases hst : s.storage with
  | none => exact h
  | some st =>
    cases htask : s.writer with
    | none => exact h
    | some task =>
      have hwriter : s.writer.isSome = true := by rw [htask]; rfl
      have hheld : ∀ id, task.head = some id → s.Known id := fun id hid =>
        .inr (.inl ⟨task, htask, hid⟩)
      cases task with
      | append parentId message =>
        exact h.writeMessage hwriter hst parentId message out fun t ht => by cases ht
      | appendWithHead lane l message =>
        have hwritten : ∀ id, (s.writeMessage st l.head message out).1 = .ok id →
            Ruled { (s.writeMessage st l.head message out).2 with
              writer := some (.appendLaneHead lane l.laneId id) } := by
          intro id hid
          apply h.writeMessage hwriter hst
          intro t ht id' hid'
          rw [← Option.some.inj ht] at hid'
          rw [hid, ← Option.some.inj hid']
        have hdropped : Ruled { (s.writeMessage st l.head message out).2 with writer := none } :=
          h.writeMessage hwriter hst l.head message out fun t ht => by cases ht
        simp only
        generalize s.writeMessage st l.head message out = written at hwritten hdropped
        obtain ⟨result, s'⟩ := written
        cases result with
        | error e => exact hdropped
        | ok id =>
          simp only
          split_ifs
          · exact hwritten id rfl
          · -- as if the lock were handed on, and then released
            have hadvanced := (hwritten id rfl).advance lane (.inr (.inl ⟨_, rfl, rfl⟩))
            exact hadvanced.release
      | appendLaneHead lane laneId id =>
        have hid : s.Known id := hheld id rfl
        have hwritten := h.writeHead hwriter hst laneId
          (fun id' (hid' : id' ∈ some id) => Option.some.inj hid' ▸ hid) out
        have hkept : (s.writeHead st laneId (some id) out).2.Known id := hid
        simp only
        generalize s.writeHead st laneId (some id) out = written at hwritten hkept
        obtain ⟨result, s'⟩ := written
        cases result with
        | error e => exact hwritten.release
        | ok _ => exact (hwritten.advance lane hkept).release
      | persistInitialHead laneId head =>
        simp only
        split_ifs
        · exact h.release
        · exact (h.writeHead hwriter hst laneId hheld out).release
        · have hlock := h.unlocked st hst
          have hmarked : Ruled { s with
              storage := some { st with headCommitted := laneId :: st.headCommitted } } :=
            h.written hwriter hlock (List.prefix_refl _) h.bound
          exact hmarked.release

theorem Ruled.eraseReader (h : Ruled s) (reader : ℕ) :
    Ruled { s with readers := s.readers.eraseIdx reader } := by
  refine ⟨?_, h.unlocked, h.bound, ?_, h.consistent⟩
  · intro hwriter
    show s.readers.eraseIdx reader = []
    rw [h.exclusive hwriter, List.eraseIdx_nil]
  · exact fun tree hmem => h.reading tree (List.mem_of_mem_eraseIdx hmem)

/-- A snapshot returns the tree of the file as it is, and heads of the same records or none. -/
theorem Ruled.returns (h : Ruled s) {tree : SessionTree}
    (htree : .loadLaneHeads tree ∈ s.readers) {heads : LaneId → Option (Option NodeId)}
    (hheads : loadLaneHeads s.file = .ok heads ∨ heads = fun _ => none) :
    Ruled { s with snapshots := s.snapshots ++ [⟨tree, heads⟩] } := by
  obtain ⟨records, hread, hred⟩ := h.reading tree htree
  obtain ⟨-, hnodes⟩ := reduceFor_nodes hred
  have hsame : heads = laneHeads records ∨ heads = fun _ => none := by
    refine hheads.imp_left fun hload => ?_
    rw [loadLaneHeads, hread] at hload
    exact (Except.ok.inj hload).symm
  refine ⟨h.exclusive, h.unlocked, ?_, h.reading, ?_⟩
  · apply (h.bound.know hread).mono
    intro id hid
    rcases hid with hid | hid | ⟨r, hr, hid⟩
    · exact .inl (.inl hid)
    · exact .inl (.inr (.inl hid))
    · rcases List.mem_append.mp hr with hr | hr
      · exact .inl (.inr (.inr ⟨r, hr, hid⟩))
      · rw [List.mem_singleton.mp hr] at hid
        exact .inr ((hnodes id).mpr hid)
  · intro r hr
    rcases List.mem_append.mp hr with hr | hr
    · exact h.consistent r hr
    · rw [List.mem_singleton.mp hr]
      refine ⟨⟨s.file, records, List.prefix_refl _, hread, hred, hsame⟩, ?_⟩
      intro laneId id hid
      rw [← hnodes]
      rcases hsame with rfl | rfl
      · exact h.bound.readRecords hread laneId id hid
      · cases hid

theorem Ruled.read (h : Ruled s) (reader : ℕ) : Ruled (s.read reader) := by
  unfold SharedSession.read
  cases hst : s.storage with
  | none => exact h
  | some st =>
    cases htask : s.readers[reader]? with
    | none => exact h
    | some task =>
      have hmem := List.mem_of_getElem? htask
      cases task with
      | load =>
        simp only
        cases hload : Guigu.load st.inner s.file with
        | error e =>
          rw [← hst]
          exact h.eraseReader reader
        | ok r =>
          obtain ⟨tree, inner⟩ := r
          obtain ⟨hsession, hlock, records, hread, hred⟩ := load_reads hload
          refine ⟨?_, ?_, h.bound, ?_, h.consistent⟩
          · intro hwriter
            rw [h.exclusive hwriter] at hmem
            cases hmem
          · intro st' hst'
            rw [← Option.some.inj hst']
            exact hlock.trans (h.unlocked st hst)
          · intro tree' htree'
            rcases List.mem_or_eq_of_mem_set htree' with htree' | heq
            · exact h.reading tree' htree'
            · obtain rfl := ReadTask.loadLaneHeads.inj heq
              rw [(reduceFor_nodes hred).1]
              exact ⟨records, hread, hred⟩
      | loadLaneHeads tree =>
        simp only
        rw [← hst]
        split_ifs
        · cases hload : Guigu.loadLaneHeads s.file with
          | error e => exact h.eraseReader reader
          | ok heads => exact (h.returns hmem (.inl hload)).eraseReader reader
        · exact (h.returns hmem (.inr rfl)).eraseReader reader

theorem Ruled.step (h : Ruled s) (a : SharedAction) : Ruled (s.step a) := by
  cases a with
  | openFile sessionId headStore =>
    refine ⟨fun _ => rfl, ?_, ?_, ?_, h.consistent⟩
    · intro st hst
      obtain ⟨inner, hopen, rfl⟩ := Option.map_eq_some_iff.mp hst
      cases hopened : (openStorage (some s.file) sessionId).1 with
      | error e =>
        rw [hopened] at hopen
        cases hopen
      | ok st' =>
        rw [hopened] at hopen
        cases hopen
        exact (openStorage_cursor hopened).1
    · apply h.bound.mono
      intro id hid
      rcases hid with ⟨l, hl, -⟩ | ⟨t, ht, -⟩ | hid
      · cases hl
      · cases ht
      · exact .inr (.inr hid)
    · intro tree hmem
      cases hmem
  | spawn laneId =>
    apply h.snoc
    intro id hid
    rcases hid with hid | hid <;> cases hid
  | fork lane laneId =>
    simp only [SharedSession.step]
    cases hl : s.lanes[lane]? with
    | none => exact h
    | some l =>
      apply h.snoc
      intro id hid
      exact .inl ⟨l, List.mem_of_getElem? hl, .inr (or_self_iff.mp hid)⟩
  | resume snapshot node laneId =>
    simp only [SharedSession.step]
    cases hr : s.snapshots[snapshot]? with
    | none => exact h
    | some r =>
      simp only
      split_ifs with hnode
      · apply h.snoc
        intro id hid
        have hid' : node.id = id := Option.some.inj (or_self_iff.mp hid)
        exact .inr (.inr ⟨r, List.mem_of_getElem? hr, node, hnode, hid'⟩)
      · exact h
  | append parentId message => exact h.acquire fun id hid => by cases hid
  | appendWithHead lane message =>
    simp only [SharedSession.step]
    cases s.lanes[lane]? with
    | none => exact h
    | some l => exact h.acquire fun id hid => by cases hid
  | persistInitialHead lane =>
    simp only [SharedSession.step]
    cases hl : s.lanes[lane]? with
    | none => exact h
    | some l => exact h.acquire fun id hid => .inl ⟨l, List.mem_of_getElem? hl, .inl hid⟩
  | write out => exact h.write out
  | snapshot =>
    simp only [SharedSession.step]
    split_ifs with hfree
    · refine ⟨?_, h.unlocked, h.bound, ?_, h.consistent⟩
      · intro hwriter
        have hnone : s.writer = none := Option.isNone_iff_eq_none.mp hfree.2
        rw [hnone] at hwriter
        cases hwriter
      · intro tree hmem
        rcases List.mem_append.mp hmem with hmem | hmem
        · exact h.reading tree hmem
        · cases List.mem_singleton.mp hmem
    · exact h
  | read reader => exact h.read reader

theorem Ruled.empty : Ruled empty := by
  refine ⟨fun _ => rfl, ?_, ?_, ?_, ?_⟩
  · intro st hst
    cases hst
  · refine .complete .nil .nil ?_
    intro id hid
    rcases hid with ⟨l, hl, -⟩ | ⟨t, ht, -⟩ | ⟨r, hr, -⟩
    · cases hl
    · cases ht
    · cases hr
  · intro tree hmem
    cases hmem
  · intro r hr
    cases hr

/-- Whatever lanes write and wherever a crash or a failing write cuts their lines, a snapshot
returns tree and heads of one front part of the log, and every head is a node of the tree. -/
theorem consistent_throughout (as : List SharedAction) :
    Throughout step Consistent empty as := by
  have hstep : ∀ s a, Ruled s → True → Ruled (step s a) := fun _ a h _ => h.step a
  exact throughout hstep (fun _ h => h.consistent) Ruled.empty
    (along_of_forall fun _ _ _ => trivial)

/-- A lane appends, its next message is cut short, and a snapshot still shows its head. -/
example :
    (run step empty
      [.openFile "session" true, .spawn "a", .appendWithHead 0 helloMessage, .write .done,
        .write .done, .appendWithHead 0 helloMessage, .write (.torn 9), .snapshot, .read 0,
        .read 0]).snapshots.map (fun r => (r.tree.nodes.map (·.id), r.heads "a")) =
      [([0], some (some 0))] := by decide +kernel

end SharedSession

end Guigu
