import Guigu.Core.Session.Journal

/-! The shared storage of a process over its session file: appends hold the write lock over both
of their records, a snapshot holds a read lock over both of its reads. -/
namespace Guigu

/-- `SharedSessionStorage` over a storage from `JsonlSessionStorage::open`. -/
structure SharedFile where
  inner : JsonlSessionStorage
  headStore : Bool
  headCommitted : List LaneId
  deriving DecidableEq, Repr

namespace SharedFile

def reopen (file : FileBytes) (sessionId : String) (headStore : Bool) :
    Except SessionError SharedFile :=
  (openStorage (some file) sessionId).1.map fun inner => ⟨inner, headStore, []⟩

def append (st : SharedFile) (file : FileBytes) (parentId : Option NodeId) (message : Message)
    (out : WriteOutcome) : Except SessionError NodeId × SharedFile × FileBytes :=
  let r := Guigu.append st.inner file parentId message out
  (r.1, { st with inner := r.2.1 }, r.2.2)

/-- Only a record that is written marks its lane. -/
def appendLaneHead (st : SharedFile) (file : FileBytes) (laneId : LaneId) (head : Option NodeId)
    (out : WriteOutcome) : Except SessionError Unit × SharedFile × FileBytes :=
  let r := Guigu.appendLaneHead file laneId head out
  (r.1, match r.1 with
    | .ok () => { st with headCommitted := laneId :: st.headCommitted }
    | .error _ => st, r.2)

/-- The message and then the head of its lane, each with its own write. -/
def appendWithHead (st : SharedFile) (file : FileBytes) (laneId : LaneId)
    (parentId : Option NodeId) (message : Message) (out headOut : WriteOutcome) :
    Except SessionError NodeId × SharedFile × FileBytes :=
  match st.append file parentId message out with
  | (.error e, st', file') => (.error e, st', file')
  | (.ok id, st', file') =>
    if st'.headStore then
      let written := st'.appendLaneHead file' laneId (some id) headOut
      (written.1.map fun _ => id, written.2)
    else (.ok id, st', file')

/-- The first head of a lane, unless the lane has committed one already. -/
def persistInitialHead (st : SharedFile) (file : FileBytes) (laneId : LaneId)
    (head : Option NodeId) (out : WriteOutcome) :
    Except SessionError Unit × SharedFile × FileBytes :=
  if laneId ∈ st.headCommitted then (.ok (), st, file)
  else if st.headStore then st.appendLaneHead file laneId head out
  else (.ok (), { st with headCommitted := laneId :: st.headCommitted }, file)

def loadLaneHeads (st : SharedFile) (file : FileBytes) :
    Except SessionError (LaneId → Option (Option NodeId)) :=
  if st.headStore then Guigu.loadLaneHeads file else .ok fun _ => none

/-- Tree and heads of one view of the file. -/
def snapshot (st : SharedFile) (file : FileBytes) :
    Except SessionError ((SessionTree × (LaneId → Option (Option NodeId))) × SharedFile) :=
  match Guigu.load st.inner file with
  | .error e => .error e
  | .ok (tree, inner) =>
    (st.loadLaneHeads file).map fun heads => ((tree, heads), { st with inner := inner })

end SharedFile

/-- The node a lane was created on, and the head of its writer. -/
structure LaneCursor where
  laneId : LaneId
  initial : Option NodeId
  head : Option NodeId
  deriving DecidableEq, Repr

/-- What holds the write lock, in front of its next write. -/
inductive WriteTask where
  | append (parentId : Option NodeId) (message : Message)
  | appendWithHead (lane : ℕ) (l : LaneCursor) (message : Message)
  | appendLaneHead (lane : ℕ) (laneId : LaneId) (id : NodeId)
  | persistInitialHead (laneId : LaneId) (head : Option NodeId)

/-- What holds a read lock, in front of its next read. -/
inductive ReadTask where
  | load
  | loadLaneHeads (tree : SessionTree)

/-- A tree and the heads that a snapshot returned with it. -/
structure Snapshot where
  tree : SessionTree
  heads : LaneId → Option (Option NodeId)

/-- A session file, the process that works on it, who holds its lock, and every snapshot that
was ever returned. -/
structure SharedSession where
  file : FileBytes
  storage : Option SharedFile
  lanes : List LaneCursor
  writer : Option WriteTask
  readers : List ReadTask
  snapshots : List Snapshot

/-- A new process has no lanes. A lane is spawned without a node, forked off another one, or
resumed on a node of a snapshot. A call that does not get the lock waits. -/
inductive SharedAction where
  | openFile (sessionId : String) (headStore : Bool)
  | spawn (laneId : LaneId)
  | fork (lane : ℕ) (laneId : LaneId)
  | resume (snapshot : ℕ) (node : SessionNode) (laneId : LaneId)
  | append (parentId : Option NodeId) (message : Message)
  | appendWithHead (lane : ℕ) (message : Message)
  | persistInitialHead (lane : ℕ)
  | write (out : WriteOutcome)
  | snapshot
  | read (reader : ℕ)

namespace SharedSession

/-- No file yet. -/
def empty : SharedSession := ⟨[], none, [], none, [], []⟩

def release (s : SharedSession) : SharedSession := { s with writer := none }

/-- The write lock is free only for a process in which nobody writes or reads. -/
def acquire (s : SharedSession) (task : WriteTask) : SharedSession :=
  if s.storage.isSome ∧ s.writer.isNone ∧ s.readers.isEmpty then { s with writer := some task }
  else s

/-- A lane writer moves its head. -/
def advance (s : SharedSession) (lane : ℕ) (id : NodeId) : SharedSession :=
  { s with lanes := s.lanes.modify lane fun l => { l with head := some id } }

/-- The message of an append, and what it returns. -/
def writeMessage (s : SharedSession) (st : SharedFile) (parentId : Option NodeId)
    (message : Message) (out : WriteOutcome) : Except SessionError NodeId × SharedSession :=
  let r := st.append s.file parentId message out
  (r.1, { s with file := r.2.2, storage := some r.2.1 })

/-- A lane head, and whether it is written. -/
def writeHead (s : SharedSession) (st : SharedFile) (laneId : LaneId) (head : Option NodeId)
    (out : WriteOutcome) : Except SessionError Unit × SharedSession :=
  let r := st.appendLaneHead s.file laneId head out
  (r.1, { s with file := r.2.2, storage := some r.2.1 })

/-- The holder of the write lock does its next write and goes on with the one behind it, or
releases the lock. -/
def write (s : SharedSession) (out : WriteOutcome) : SharedSession :=
  match s.storage, s.writer with
  | some st, some (.append parentId message) =>
    (s.writeMessage st parentId message out).2.release
  | some st, some (.appendWithHead lane l message) =>
    match s.writeMessage st l.head message out with
    | (.error _, s') => s'.release
    | (.ok id, s') =>
      if st.headStore then { s' with writer := some (.appendLaneHead lane l.laneId id) }
      else (s'.advance lane id).release
  | some st, some (.appendLaneHead lane laneId id) =>
    match s.writeHead st laneId (some id) out with
    | (.error _, s') => s'.release
    | (.ok (), s') => (s'.advance lane id).release
  | some st, some (.persistInitialHead laneId head) =>
    if laneId ∈ st.headCommitted then s.release
    else if st.headStore then (s.writeHead st laneId head out).2.release
    else
      { s with storage := some { st with headCommitted := laneId :: st.headCommitted } }.release
  | _, _ => s

/-- A snapshot loads the tree, then the heads, then returns both. -/
def read (s : SharedSession) (reader : ℕ) : SharedSession :=
  let done := { s with readers := s.readers.eraseIdx reader }
  match s.storage, s.readers[reader]? with
  | some st, some .load =>
    match Guigu.load st.inner s.file with
    | .error _ => done
    | .ok (tree, inner) =>
      { s with
        storage := some { st with inner := inner }
        readers := s.readers.set reader (.loadLaneHeads tree) }
  | some st, some (.loadLaneHeads tree) =>
    if st.headStore then
      match Guigu.loadLaneHeads s.file with
      | .error _ => done
      | .ok heads => { done with snapshots := s.snapshots ++ [⟨tree, heads⟩] }
    else { done with snapshots := s.snapshots ++ [⟨tree, fun _ => none⟩] }
  | _, _ => s

def step (s : SharedSession) : SharedAction → SharedSession
  | .openFile sessionId headStore =>
    { s with
      storage := (openStorage (some s.file) sessionId).1.toOption.map fun inner =>
        ⟨inner, headStore, []⟩
      lanes := []
      writer := none
      readers := [] }
  | .spawn laneId => { s with lanes := s.lanes ++ [⟨laneId, none, none⟩] }
  | .fork lane laneId =>
    match s.lanes[lane]? with
    | none => s
    | some l => { s with lanes := s.lanes ++ [⟨laneId, l.head, l.head⟩] }
  | .resume snapshot node laneId =>
    match s.snapshots[snapshot]? with
    | none => s
    | some r =>
      if node ∈ r.tree.nodes then
        { s with lanes := s.lanes ++ [⟨laneId, some node.id, some node.id⟩] }
      else s
  | .append parentId message => s.acquire (.append parentId message)
  | .appendWithHead lane message =>
    match s.lanes[lane]? with
    | none => s
    | some l => s.acquire (.appendWithHead lane l message)
  | .persistInitialHead lane =>
    match s.lanes[lane]? with
    | none => s
    | some l => s.acquire (.persistInitialHead l.laneId l.initial)
  | .write out => s.write out
  | .snapshot =>
    if s.storage.isSome ∧ s.writer.isNone then { s with readers := s.readers ++ [.load] } else s
  | .read reader => s.read reader

/-- Tree and heads of a snapshot are those of one front part of the log, and every head is a node
of the tree. -/
def Consistent (s : SharedSession) : Prop :=
  ∀ r ∈ s.snapshots,
    (∃ log records, log <+: s.file ∧ readRecords log = .ok records ∧
      reduceFor (entriesOf records) r.tree.sessionId = .ok r.tree ∧
      (r.heads = laneHeads records ∨ r.heads = fun _ => none)) ∧
    ∀ laneId id, r.heads laneId = some (some id) → ∃ n ∈ r.tree.nodes, n.id = id

end SharedSession

end Guigu
