import Guigu.Core.Session.SharedRefinement

/-! Any number of lane writers on one shared storage: what the path of a lane is made of, over the
records of the storage and over the bytes of its file. -/
namespace Guigu

/-- A lane writer, the path of the node it was put on, and the messages it appended since. -/
structure LaneBranch where
  writer : LaneWriter
  start : List Message
  appended : List Message
  deriving DecidableEq, Repr

structure SharedLanes where
  storage : SharedSessionStorage
  lanes : List LaneBranch
  deriving DecidableEq, Repr

/-- What the writers of a storage do. A writer is made by `LaneWriter::new`. -/
inductive LaneWriterAction where
  | new (laneId : LaneId) (head : Option NodeId)
  | forkAt (lane : ℕ) (parent : Option NodeId)
  | append (lane : ℕ) (message : Message) (fault : WriteFault)
  deriving DecidableEq, Repr

def LaneWriter.forkAt (w : LaneWriter) (parent : Option NodeId) : LaneWriter :=
  { w with head := parent }

/-- The message nodes on record. -/
def SharedSessionStorage.log (s : SharedSessionStorage) : List SessionEntry := entriesOf s.records

/-- The messages from the root to `head` in the tree on record. -/
def SharedSessionStorage.pathOf (s : SharedSessionStorage) (head : Option NodeId) :
    Option (List Message) :=
  match reduceFor s.log s.sessionId with
  | .error _ => none
  | .ok tree => tree.headPath head

/-- A writer that has appended nothing yet. -/
def LaneBranch.at (storage : SharedSessionStorage) (writer : LaneWriter) : LaneBranch :=
  ⟨writer, (storage.pathOf writer.head).getD [], []⟩

namespace SharedLanes

def start (storage : SharedSessionStorage) (lanes : List (LaneId × Option NodeId)) :
    SharedLanes := ⟨storage, lanes.map fun l => .at storage ⟨l.1, l.2⟩⟩

def step (s : SharedLanes) : LaneWriterAction → SharedLanes
  | .new laneId head => { s with lanes := s.lanes ++ [.at s.storage ⟨laneId, head⟩] }
  | .forkAt lane parent =>
    match s.lanes[lane]? with
    | none => s
    | some l => { s with lanes := s.lanes.set lane (.at s.storage (l.writer.forkAt parent)) }
  | .append lane message fault =>
    match s.lanes[lane]? with
    | none => s
    | some l =>
      let written := l.writer.append s.storage message fault
      ⟨written.2.2, s.lanes.set lane
        { l with
          writer := written.2.1
          appended := l.appended ++ (written.1.toOption.map fun _ => message).toList }⟩

/-- Writers are put on existing nodes, and a lane without a node does not lose the head record
of its first message. -/
def Allowed (s : SharedLanes) : LaneWriterAction → Prop
  | .new _ head => ∃ e ∈ s.storage.log, head = some e.id
  | .forkAt _ parent => ∃ e ∈ s.storage.log, parent = some e.id
  | .append lane _ fault => fault = .head → s.storage.headStore = true →
    ∀ l ∈ s.lanes[lane]?, l.writer.head ≠ none

instance (s : SharedLanes) : (a : LaneWriterAction) → Decidable (s.Allowed a)
  | .new _ head => inferInstanceAs (Decidable (∃ e ∈ s.storage.log, head = some e.id))
  | .forkAt _ parent => inferInstanceAs (Decidable (∃ e ∈ s.storage.log, parent = some e.id))
  | .append lane _ fault => inferInstanceAs (Decidable (fault = .head →
      s.storage.headStore = true → ∀ l ∈ s.lanes[lane]?, l.writer.head ≠ none))

/-- The log reduces, and the path of every lane is where it started and what it appended. -/
def Isolated (s : SharedLanes) : Prop :=
  ∃ tree, reduceFor s.storage.log s.storage.sessionId = .ok tree ∧
    ∀ l ∈ s.lanes, tree.headPath l.writer.head = some (l.start ++ l.appended)

end SharedLanes

/-- The path of the lane, read off the log. -/
def LaneBranch.Placed (log : List SessionEntry) (l : LaneBranch) : Prop :=
  ∃ es, ChainTo log l.writer.head es ∧ es.map (·.message) = l.start ++ l.appended

theorem LaneBranch.Placed.append_right {log : List SessionEntry} {l : LaneBranch}
    (h : l.Placed log) (more : List SessionEntry) : l.Placed (log ++ more) := by
  obtain ⟨es, hes, hmessages⟩ := h
  exact ⟨es, hes.append_right more, hmessages⟩

/-- The message of a lane goes behind its path. -/
theorem LaneBranch.Placed.snoc {log : List SessionEntry} {l : LaneBranch} (h : l.Placed log)
    {e : SessionEntry} (hp : e.parentId = l.writer.head) :
    LaneBranch.Placed (log ++ [e])
      { l with
        writer := { l.writer with head := some e.id }
        appended := l.appended ++ [e.message] } := by
  obtain ⟨es, hes, hmessages⟩ := h
  rw [← hp] at hes
  refine ⟨es ++ [e], hes.snoc, ?_⟩
  rw [List.map_append, hmessages, List.append_assoc]
  rfl

/-- A writer put on a node of a rooted log starts with the path of the node. -/
theorem LaneBranch.placed_at {storage : SharedSessionStorage} (h : RootedLog storage.log)
    {writer : LaneWriter} {es : List SessionEntry} (hes : ChainTo storage.log writer.head es) :
    (LaneBranch.at storage writer).Placed storage.log := by
  obtain ⟨root, hred⟩ := reduceFor_rooted h storage.sessionId
  refine ⟨es, hes, ?_⟩
  simp only [LaneBranch.at, SharedSessionStorage.pathOf, hred, headPath_treeOf h hes,
    Option.getD_some, List.append_nil]

/-- Storage opened over a log keeps its records and claims identifiers above all of theirs. -/
theorem SharedSessionStorage.reopen_ok {sessionId : String} {records : List SessionRecord}
    {headStore : Bool} {storage : SharedSessionStorage}
    (h : reopen sessionId records headStore = .ok storage) :
    storage.records = records ∧ ∀ e ∈ storage.log, e.id < storage.nextId := by
  unfold reopen at h
  cases hnext : cursorAfter records with
  | error e =>
    rw [hnext] at h
    cases h
  | ok next =>
    rw [hnext] at h
    cases h
    exact ⟨rfl, cursorAfter_lt hnext⟩

namespace SharedLanes

/-- The log is one tree below the cursor, every lane stands where its path ends, and only the
one lane of an empty log has no node. -/
structure Linked (s : SharedLanes) : Prop where
  rooted : RootedLog s.storage.log
  below : ∀ e ∈ s.storage.log, e.id < s.storage.nextId
  placed : ∀ l ∈ s.lanes, l.Placed s.storage.log
  roots : (∀ l ∈ s.lanes, l.writer.head ≠ none) ∨ s.storage.log = [] ∧ s.lanes.length = 1

theorem Linked.isolated {s : SharedLanes} (h : s.Linked) : s.Isolated := by
  obtain ⟨root, hred⟩ := reduceFor_rooted h.rooted s.storage.sessionId
  refine ⟨_, hred, fun l hl => ?_⟩
  obtain ⟨es, hes, hmessages⟩ := h.placed l hl
  rw [headPath_treeOf h.rooted hes, hmessages]

/-- A lane without a node has the log for itself. -/
theorem Linked.empty_of_none {s : SharedLanes} (h : s.Linked) {l : LaneBranch}
    (hl : l ∈ s.lanes) (hnone : l.writer.head = none) : s.storage.log = [] := by
  rcases h.roots with hsome | hempty
  · exact absurd hnone (hsome l hl)
  · exact hempty.1

theorem Linked.rooted_entry {s : SharedLanes} (h : s.Linked) {l : LaneBranch} (hl : l ∈ s.lanes)
    (message : Message) : RootedLog (s.storage.log ++ [l.writer.entry s.storage message]) := by
  apply h.rooted.snoc
  · intro hmem
    obtain ⟨e, he, hid⟩ := List.mem_map.mp hmem
    have hsame : e.id = s.storage.nextId := hid
    exact Nat.ne_of_lt (h.below e he) hsame
  · exact h.empty_of_none hl
  · intro p hp
    obtain ⟨es, hes, -⟩ := h.placed l hl
    have hhead : l.writer.head = some p := hp
    rw [hhead] at hes
    exact hes.mem_ids

theorem Linked.below_entry {s : SharedLanes} (h : s.Linked) (l : LaneBranch) (message : Message) :
    ∀ e ∈ s.storage.log ++ [l.writer.entry s.storage message], e.id < s.storage.nextId + 1 := by
  intro e he
  rw [List.mem_append, List.mem_singleton] at he
  rcases he with he | rfl
  · exact Nat.lt_succ_of_lt (h.below e he)
  · exact Nat.lt_succ_self _

/-- Putting a writer on a node. -/
theorem Linked.at_node {s : SharedLanes} (h : s.Linked) (laneId : LaneId) {head : Option NodeId}
    (hhead : ∃ e ∈ s.storage.log, head = some e.id) :
    (LaneBranch.at s.storage ⟨laneId, head⟩).Placed s.storage.log ∧ head ≠ none ∧
      s.storage.log ≠ [] := by
  obtain ⟨e, he, rfl⟩ := hhead
  obtain ⟨es, hes⟩ := h.rooted.exists_chain (List.mem_map_of_mem (f := SessionEntry.id) he)
  exact ⟨LaneBranch.placed_at h.rooted hes, by simp, List.ne_nil_of_mem he⟩

/-- Another view of one lane over a log that still has the places of all of them. -/
theorem Linked.set {s : SharedLanes} (h : s.Linked) {lane : ℕ} {l l' : LaneBranch}
    (hl : s.lanes[lane]? = some l) {storage : SharedSessionStorage}
    (hrooted : RootedLog storage.log) (hbelow : ∀ e ∈ storage.log, e.id < storage.nextId)
    (hplaced : ∀ q ∈ s.lanes, q.Placed storage.log) (hplaced' : l'.Placed storage.log)
    (hhead : l'.writer.head ≠ none ∨
      l'.writer.head = l.writer.head ∧ storage.log = s.storage.log) :
    Linked ⟨storage, s.lanes.set lane l'⟩ := by
  constructor
  · exact hrooted
  · exact hbelow
  · intro q hq
    rcases List.mem_or_eq_of_mem_set hq with hold | rfl
    · exact hplaced q hold
    · exact hplaced'
  · rcases h.roots with hsome | ⟨hnil, hone⟩
    · left
      intro q hq
      rcases List.mem_or_eq_of_mem_set hq with hold | rfl
      · exact hsome q hold
      · rcases hhead with hnew | ⟨hsame, -⟩
        · exact hnew
        · rw [hsame]
          exact hsome l (List.mem_of_getElem? hl)
    · rcases hhead with hnew | ⟨-, hsame⟩
      · -- the one lane of the log got its first node
        left
        obtain ⟨k, hk⟩ := List.length_eq_one_iff.mp hone
        rw [hk] at hl ⊢
        cases lane with
        | zero => exact List.forall_mem_singleton.mpr hnew
        | succ lane => cases hl
      · right
        exact ⟨hsame.trans hnil, (List.length_set ..).trans hone⟩

theorem Linked.append {s : SharedLanes} (h : s.Linked) {lane : ℕ} {message : Message}
    {fault : WriteFault} (ha : s.Allowed (.append lane message fault)) :
    (s.step (.append lane message fault)).Linked := by
  unfold step
  cases hl : s.lanes[lane]? with
  | none => simpa only [hl] using h
  | some l =>
    have hmem : l ∈ s.lanes := List.mem_of_getElem? hl
    have hplaced := h.placed l hmem
    rcases l.writer.append_cases s.storage message fault with
      ⟨e, next, hw, hle, -⟩ | ⟨-, hstore, hfault, hw⟩ | ⟨-, -, -, hw⟩
    · simp only [hl, hw, Except.toOption, Option.map_none, Option.toList_none, List.append_nil]
      apply h.set hl
      · exact h.rooted
      · intro r hr
        exact Nat.lt_of_lt_of_le (h.below r hr) hle
      · exact h.placed
      · exact hplaced
      · exact .inr ⟨rfl, rfl⟩
    · -- the message stays behind without its head, and the writer stays where it was
      simp only [hl, hw, Except.toOption, Option.map_none, Option.toList_none, List.append_nil]
      have hlog : entriesOf (s.storage.records ++ [.message (l.writer.entry s.storage message)]) =
          s.storage.log ++ [l.writer.entry s.storage message] := entriesOf_append _ _
      apply h.set hl
      · rw [SharedSessionStorage.log, hlog]
        exact h.rooted_entry hmem message
      · rw [SharedSessionStorage.log, hlog]
        exact h.below_entry l message
      · intro q hq
        rw [SharedSessionStorage.log, hlog]
        exact (h.placed q hq).append_right _
      · rw [SharedSessionStorage.log, hlog]
        exact hplaced.append_right _
      · exact .inl (ha hfault hstore l hl)
    · simp only [hl, hw, Except.toOption, Option.map_some, Option.toList_some]
      have hlog : entriesOf (s.storage.records ++ .message (l.writer.entry s.storage message) ::
          (if s.storage.headStore then [.laneHead ⟨l.writer.laneId, some s.storage.nextId⟩]
            else [])) = s.storage.log ++ [l.writer.entry s.storage message] := by
        rw [entriesOf_append]
        split_ifs <;> rfl
      apply h.set hl
      · rw [SharedSessionStorage.log, hlog]
        exact h.rooted_entry hmem message
      · rw [SharedSessionStorage.log, hlog]
        exact h.below_entry l message
      · intro q hq
        rw [SharedSessionStorage.log, hlog]
        exact (h.placed q hq).append_right _
      · rw [SharedSessionStorage.log, hlog]
        have hsnoc : LaneBranch.Placed (s.storage.log ++ [l.writer.entry s.storage message]) _ :=
          hplaced.snoc rfl
        exact hsnoc
      · left
        simp

theorem Linked.step {s : SharedLanes} (h : s.Linked) {a : LaneWriterAction} (ha : s.Allowed a) :
    (s.step a).Linked := by
  cases a with
  | new laneId head =>
    obtain ⟨hplaced, hsome, hne⟩ := h.at_node laneId ha
    have hall := h.roots.resolve_right fun hempty => hne hempty.1
    refine ⟨h.rooted, h.below, ?_, .inl ?_⟩
    · exact List.forall_mem_append.mpr ⟨h.placed, List.forall_mem_singleton.mpr hplaced⟩
    · exact List.forall_mem_append.mpr ⟨hall, List.forall_mem_singleton.mpr hsome⟩
  | forkAt lane parent =>
    unfold SharedLanes.step
    cases hl : s.lanes[lane]? with
    | none => simpa only [hl] using h
    | some l =>
      obtain ⟨hplaced, hsome, -⟩ := h.at_node l.writer.laneId ha
      simp only [hl]
      apply h.set hl h.rooted h.below h.placed
      · exact hplaced
      · exact .inl hsome
  | append lane message fault => exact h.append ha

theorem Linked.start {storage : SharedSessionStorage} (hrooted : RootedLog storage.log)
    (hbelow : ∀ e ∈ storage.log, e.id < storage.nextId)
    {lanes : List (LaneId × Option NodeId)}
    (hlanes : (∀ l ∈ lanes, ∃ e ∈ storage.log, l.2 = some e.id) ∨
      storage.log = [] ∧ ∃ laneId, lanes = [(laneId, none)]) :
    (SharedLanes.start storage lanes).Linked := by
  have hchain : ∀ l ∈ lanes, ∃ es, ChainTo storage.log l.2 es := by
    rcases hlanes with hnodes | ⟨-, laneId, rfl⟩
    · intro l hl
      obtain ⟨e, he, hid⟩ := hnodes l hl
      rw [hid]
      exact hrooted.exists_chain (List.mem_map_of_mem (f := SessionEntry.id) he)
    · exact List.forall_mem_singleton.mpr ⟨[], .root⟩
  refine ⟨hrooted, hbelow, ?_, ?_⟩
  · intro q hq
    obtain ⟨l, hl, rfl⟩ := List.mem_map.mp hq
    obtain ⟨es, hes⟩ := hchain l hl
    exact LaneBranch.placed_at hrooted hes
  · rcases hlanes with hnodes | ⟨hnil, laneId, rfl⟩
    · left
      intro q hq hnone
      obtain ⟨l, hl, rfl⟩ := List.mem_map.mp hq
      obtain ⟨e, -, hid⟩ := hnodes l hl
      cases hid.symm.trans hnone
    · exact .inr ⟨hnil, rfl⟩

end SharedLanes

/-- The message nodes that are read of a file. -/
def logOf (file : FileBytes) : List SessionEntry :=
  match readRecords file with
  | .error _ => []
  | .ok records => entriesOf records

/-- The messages from the root to `head` in the tree that is read of the file. -/
def SharedFile.pathOf (st : SharedFile) (file : FileBytes) (head : Option NodeId) :
    Option (List Message) :=
  match readRecords file with
  | .error _ => none
  | .ok records => (st.withRecords records).pathOf head

/-- The lanes of a storage and the bytes of its file. -/
structure FileLanes where
  file : FileBytes
  storage : SharedFile
  lanes : List LaneBranch
  deriving DecidableEq, Repr

inductive FileLaneAction where
  | new (laneId : LaneId) (head : Option NodeId)
  | forkAt (lane : ℕ) (parent : Option NodeId)
  | append (lane : ℕ) (message : Message) (out headOut : WriteOutcome)
  deriving DecidableEq, Repr

namespace FileLanes

/-- A writer that has appended nothing yet. -/
def branch (file : FileBytes) (storage : SharedFile) (writer : LaneWriter) : LaneBranch :=
  ⟨writer, (storage.pathOf file writer.head).getD [], []⟩

def start (file : FileBytes) (storage : SharedFile) (lanes : List (LaneId × Option NodeId)) :
    FileLanes := ⟨file, storage, lanes.map fun l => branch file storage ⟨l.1, l.2⟩⟩

def step (s : FileLanes) : FileLaneAction → FileLanes
  | .new laneId head => { s with lanes := s.lanes ++ [branch s.file s.storage ⟨laneId, head⟩] }
  | .forkAt lane parent =>
    match s.lanes[lane]? with
    | none => s
    | some l =>
      { s with lanes := s.lanes.set lane (branch s.file s.storage (l.writer.forkAt parent)) }
  | .append lane message out headOut =>
    match s.lanes[lane]? with
    | none => s
    | some l =>
      let written := l.writer.appendTo s.storage s.file message out headOut
      ⟨written.2.2.2, written.2.2.1, s.lanes.set lane
        { l with
          writer := written.2.1
          appended := l.appended ++ (written.1.toOption.map fun _ => message).toList }⟩

/-- Writers are put on nodes on file, what they write can be read back, and a lane without a node
does not lose the head record of its first message. -/
def Allowed (s : FileLanes) : FileLaneAction → Prop
  | .new _ head => ∃ e ∈ logOf s.file, head = some e.id
  | .forkAt _ parent => ∃ e ∈ logOf s.file, parent = some e.id
  | .append lane message out headOut => ∀ l ∈ s.lanes[lane]?,
    s.storage.SafeAppend s.file l.writer.laneId l.writer.head message out headOut ∧
      (out.fault headOut = .head → s.storage.headStore = true → l.writer.head ≠ none)

instance (s : FileLanes) : (a : FileLaneAction) → Decidable (s.Allowed a)
  | .new _ head => inferInstanceAs (Decidable (∃ e ∈ logOf s.file, head = some e.id))
  | .forkAt _ parent => inferInstanceAs (Decidable (∃ e ∈ logOf s.file, parent = some e.id))
  | .append lane message out headOut => inferInstanceAs (Decidable (∀ l ∈ s.lanes[lane]?,
    s.storage.SafeAppend s.file l.writer.laneId l.writer.head message out headOut ∧
      (out.fault headOut = .head → s.storage.headStore = true → l.writer.head ≠ none)))

/-- The file reduces, and the path of every lane is where it started and what it appended. -/
def Isolated (s : FileLanes) : Prop :=
  ∃ records tree, readRecords s.file = .ok records ∧
    reduceFor (entriesOf records) s.storage.inner.sessionId = .ok tree ∧
    ∀ l ∈ s.lanes, tree.headPath l.writer.head = some (l.start ++ l.appended)

/-- The same lanes over the records that are read of the file. -/
def Shows (s : FileLanes) (t : SharedLanes) : Prop :=
  s.lanes = t.lanes ∧ s.storage.Shows s.file t.storage

namespace Shows

variable {s : FileLanes} {t : SharedLanes}

theorem log_eq (h : s.Shows t) : logOf s.file = t.storage.log := by
  rw [logOf, h.2.readRecords]
  rfl

theorem branch_eq (h : s.Shows t) (writer : LaneWriter) :
    branch s.file s.storage writer = .at t.storage writer := by
  simp only [branch, SharedFile.pathOf, h.2.readRecords, h.2.view, LaneBranch.at]

/-- What is done over the file is done over the records. -/
theorem step (h : s.Shows t) {a : FileLaneAction} (ha : s.Allowed a) :
    ∃ b, t.Allowed b ∧ (s.step a).Shows (t.step b) := by
  have hlog := h.log_eq
  have hbranch := h.branch_eq
  obtain ⟨file, storage, lanes⟩ := s
  obtain ⟨records, lanes'⟩ := t
  obtain ⟨rfl, hshows⟩ : lanes = lanes' ∧ storage.Shows file records := h
  cases a with
  | new laneId head =>
    have hnode : ∃ e ∈ logOf file, head = some e.id := ha
    simp only [hlog] at hnode
    refine ⟨.new laneId head, hnode, ?_, hshows⟩
    show lanes ++ [branch file storage _] = lanes ++ [LaneBranch.at records _]
    rw [hbranch]
  | forkAt lane parent =>
    have hnode : ∃ e ∈ logOf file, parent = some e.id := ha
    simp only [hlog] at hnode
    refine ⟨.forkAt lane parent, hnode, ?_⟩
    cases hl : lanes[lane]? with
    | none =>
      simp only [FileLanes.step, SharedLanes.step, hl]
      exact ⟨rfl, hshows⟩
    | some l =>
      simp only [FileLanes.step, SharedLanes.step, hl, hbranch]
      exact ⟨rfl, hshows⟩
  | append lane message out headOut =>
    refine ⟨.append lane message (out.fault headOut), ?_, ?_⟩
    · intro hfault hstore l hl
      have hbound : records.headStore = true := hstore
      exact (ha l hl).2 hfault (hshows.headStore_eq ▸ hbound)
    · cases hl : lanes[lane]? with
      | none =>
        simp only [FileLanes.step, SharedLanes.step, hl]
        exact ⟨rfl, hshows⟩
      | some l =>
        obtain ⟨hreturned, hwriter, hshows'⟩ := LaneWriter.appendTo_shows hshows (ha l hl).1
        simp only [FileLanes.step, SharedLanes.step, hl, hreturned, hwriter]
        exact ⟨rfl, hshows'⟩

end Shows

theorem Isolated.pathOf {s : FileLanes} (h : s.Isolated) :
    ∀ l ∈ s.lanes, s.storage.pathOf s.file l.writer.head = some (l.start ++ l.appended) := by
  obtain ⟨records, tree, hread, hred, hpaths⟩ := h
  intro l hl
  have hlog : (s.storage.withRecords records).log = entriesOf records := rfl
  have hsession : (s.storage.withRecords records).sessionId = s.storage.inner.sessionId := rfl
  simp only [SharedFile.pathOf, hread, SharedSessionStorage.pathOf, hlog, hsession, hred]
  exact hpaths l hl

/-- Lanes on one storage over a file that reduces never meet: as long as what is written can be read
back, and whatever order their appends take, the file reduces, and the path of each lane is where it
started and then its own messages. -/
theorem isolated_throughout {file : FileBytes} {sessionId : String} {headStore : Bool}
    {storage : SharedFile} {records : List SessionRecord} {tree : SessionTree}
    (hholds : Holds file records) (hopen : SharedFile.reopen file sessionId headStore = .ok storage)
    (hreduces : reduceFor (entriesOf records) sessionId = .ok tree)
    {lanes : List (LaneId × Option NodeId)}
    (hlanes : (∀ l ∈ lanes, ∃ e ∈ entriesOf records, l.2 = some e.id) ∨
      entriesOf records = [] ∧ ∃ laneId, lanes = [(laneId, none)])
    {as : List FileLaneAction} (has : Runs.Along step Allowed (.start file storage lanes) as) :
    Runs.Throughout step Isolated (.start file storage lanes) as := by
  obtain ⟨hreopen, hshows⟩ := SharedFile.Shows.reopen hholds hopen
  obtain ⟨-, hbelow⟩ := SharedSessionStorage.reopen_ok hreopen
  have hstart : (FileLanes.start file storage lanes).Shows
      (.start (storage.withRecords records) lanes) := by
    refine ⟨?_, hshows⟩
    have hbranch : ∀ writer,
        branch file storage writer = .at (storage.withRecords records) writer := by
      intro writer
      simp only [branch, SharedFile.pathOf, hholds.readRecords, LaneBranch.at]
    simp only [FileLanes.start, SharedLanes.start, hbranch]
  have hrooted : RootedLog (storage.withRecords records).log := rooted_of_reduceFor hreduces
  have hlinked := SharedLanes.Linked.start hrooted hbelow hlanes
  have hmatch : ∀ s t a, Shows s t → t.Linked → Allowed s a →
      ∃ bs, Runs.Along SharedLanes.step SharedLanes.Allowed t bs ∧
        (step s a).Shows (Runs.run SharedLanes.step t bs) := by
    intro s t a h _ ha
    obtain ⟨b, hb, hshows⟩ := h.step ha
    exact ⟨[b], ⟨hb, trivial⟩, hshows⟩
  refine Runs.throughout_of_matched hmatch (fun _ _ h ha => h.step ha) ?_ hstart hlinked has
  intro s t h hlinked
  obtain ⟨htree, hred, hpaths⟩ := hlinked.isolated
  refine ⟨t.storage.records, htree, h.2.readRecords, ?_, ?_⟩
  · rw [← hred, ← h.2.view]
    rfl
  · rw [h.1]
    exact hpaths

/-- The root stands behind its child. -/
def childFirst : List SessionRecord :=
  [.message ⟨1, some 0, helloMessage⟩, .message ⟨0, none, helloMessage⟩]

/-- Three lanes go on, and one of them loses a head record, of which some bytes stay. -/
theorem isolated_childFirst :
    Runs.Throughout step Isolated
      (.start (logBytes childFirst) ⟨⟨"session", 2, false⟩, true, []⟩
        [("a", some 1), ("b", some 0)])
      [.append 0 helloMessage .done .done, .new "c" (some 2), .append 2 helloMessage .done .done,
        .append 0 helloMessage (.torn 0) .done, .append 1 helloMessage .done .done,
        .forkAt 0 (some 3), .append 0 helloMessage .done (.torn 7),
        .append 1 helloMessage (.torn 4) .done] := by
  have hlegible : ∀ r ∈ childFirst, r.Legible := by decide +kernel
  have hreduces : reduceFor (entriesOf childFirst) "session" = .ok ⟨"session", some 0,
      [⟨0, none, helloMessage, [1]⟩, ⟨1, some 0, helloMessage, []⟩]⟩ := by decide +kernel
  have hopen : SharedFile.reopen (logBytes childFirst) "session" true =
      .ok ⟨⟨"session", 2, false⟩, true, []⟩ := by
    rw [SharedFile.reopen_eq, readRecords_logBytes hlegible]
    rfl
  exact isolated_throughout (.of_complete (completeFile_logBytes hlegible)) hopen hreduces
    (.inl (by decide)) (by decide +kernel)

/-- A log of one message, with the first byte of a line behind it. -/
def tornLog : FileBytes := logBytes [.message ⟨0, none, helloMessage⟩] ++ [123]

/-- The file reduces and is opened. What its lane appends next returns `Ok` and is on no path. -/
theorem tornLog_lost :
    (∃ records tree, readRecords tornLog = .ok records ∧
        reduceFor (entriesOf records) "session" = .ok tree) ∧
      SharedFile.reopen tornLog "session" true = .ok ⟨⟨"session", 1, false⟩, true, []⟩ ∧
      ¬ Runs.Throughout step Isolated
        (.start tornLog ⟨⟨"session", 1, false⟩, true, []⟩ [("a", some 0)])
        [.append 0 helloMessage .done .done] := by
  have hread : readRecords tornLog = .ok [.message ⟨0, none, helloMessage⟩] := by decide +kernel
  refine ⟨⟨_, ⟨"session", some 0, [⟨0, none, helloMessage, []⟩]⟩, hread, by decide +kernel⟩, ?_, ?_⟩
  · rw [SharedFile.reopen_eq, hread]
    rfl
  · intro hrun
    have hpaths := hrun.last.pathOf
    revert hpaths
    decide +kernel

end FileLanes

end Guigu
