import Guigu.Server.LaneRecovery
import Guigu.Library.Runs

/-! The lanes of one session: creation by spawn, fork and resume, each a task that works in
several steps between which other tasks run, and the persistence bridges of the lanes. -/
namespace Guigu

/-- A lane behind its bridge. `transcript` is what its runtime starts with, `acked` are the
messages whose append returned `Ok`. -/
structure LaneRuntime where
  writer : LaneWriter
  transcript : List Message
  acked : List Message
  deriving DecidableEq, Repr

/-- A lane under creation. -/
inductive LaneTask where
  /-- A resumed lane whose head is resolved. -/
  | resumed (laneId : LaneId) (head : Option NodeId) (transcript : List Message)
  /-- A fork that has found the writer of its source. -/
  | forking (fromLane newLane : LaneId) (source : ℕ)
  /-- The runtime and the writer exist, the lane is not yet registered. -/
  | spawned (laneId : LaneId) (head : Option NodeId) (transcript : List Message)
      (persistInitial : Bool) (fromLane : Option LaneId)
  /-- The lane is registered, its first head not yet on record. -/
  | registered (laneId : LaneId) (head : Option NodeId) (generation : ℕ)
  deriving DecidableEq, Repr

/-- One session of one process. The generation of a lane is its place in `runtimes`, where a
runtime stays when its lane is removed from the registry. Without a session only the records
of the storage count. -/
structure LaneServer where
  storage : SharedSessionStorage
  session : Bool
  lanes : List (LaneId × ℕ)
  runtimes : List LaneRuntime
  tasks : List LaneTask
  deriving DecidableEq, Repr

namespace LaneServer

def fresh (sessionId : String) : LaneServer :=
  ⟨⟨sessionId, [], 0, false, []⟩, false, [], [], []⟩

/-- The message nodes on record. -/
def log (s : LaneServer) : List SessionEntry := entriesOf s.storage.records

/-- A new process: the file is all that is left. -/
def restart (s : LaneServer) : LaneServer :=
  { s with session := false, lanes := [], runtimes := [], tasks := [] }

def openStorage (s : LaneServer) (headStore : Bool) : Except ServerError SharedSessionStorage :=
  (SharedSessionStorage.reopen s.storage.sessionId s.storage.records headStore).mapError .session

def insertSession (s : LaneServer) (storage : SharedSessionStorage) :
    Except ServerError LaneServer :=
  if s.session then .error (.duplicateSession s.storage.sessionId)
  else .ok { s with storage := storage, session := true }

def createSession (s : LaneServer) (headStore : Bool) : Except ServerError LaneServer :=
  match s.openStorage headStore with
  | .error e => .error e
  | .ok storage => s.insertSession storage

def loadSession (s : LaneServer) (headStore : Bool) : Except ServerError LaneServer :=
  match s.openStorage headStore with
  | .error e => .error e
  | .ok storage =>
    match storage.load with
    | .error e => .error (.session e)
    | .ok (_, storage') => s.insertSession storage'

def contains (s : LaneServer) (laneId : LaneId) : Bool := s.lanes.any fun l => l.1 = laneId

/-- The session must be there and the lane must not. -/
def checkLane (s : LaneServer) (laneId : LaneId) : Except ServerError Unit :=
  if s.session = false then .error (.sessionNotFound s.storage.sessionId)
  else if s.contains laneId then .error (.laneAlreadyExists laneId)
  else .ok ()

/-- The second check, in front of the registration; a fork asks for its source again. -/
def checkInsert (s : LaneServer) (laneId : LaneId) (fromLane : Option LaneId) :
    Except ServerError Unit :=
  match s.checkLane laneId with
  | .error e => .error e
  | .ok () =>
    match fromLane with
    | none => .ok ()
    | some source => if s.contains source then .ok () else .error (.laneNotFound source)

def push (s : LaneServer) (t : LaneTask) : LaneServer := { s with tasks := s.tasks ++ [t] }

/-- Load, resolve the head, and only then register the session. -/
def loadAndResume (s : LaneServer) (headStore : Bool) (laneId : LaneId)
    (head : Option NodeId) : Except ServerError LaneServer :=
  match s.openStorage headStore with
  | .error e => .error e
  | .ok storage =>
    match storage.snapshot with
    | .error e => .error (.session e)
    | .ok ((tree, heads), storage') =>
      match resolveResumeHead tree head (heads laneId) with
      | .error e => .error e
      | .ok (head', transcript) =>
        (s.insertSession storage').map (·.push (.resumed laneId head' transcript))

def resumeLane (s : LaneServer) (laneId : LaneId) (head : Option NodeId) :
    Except ServerError LaneServer :=
  if s.session = false then .error (.sessionNotFound s.storage.sessionId)
  else
    match s.storage.snapshot with
    | .error e => .error (.session e)
    | .ok ((tree, heads), storage') =>
      match resolveResumeHead tree head (heads laneId) with
      | .error e => .error e
      | .ok (head', transcript) =>
        .ok (({ s with storage := storage' } : LaneServer).push (.resumed laneId head' transcript))

/-- A new lane starts without a node and with an empty transcript. -/
def spawnLane (s : LaneServer) (laneId : LaneId) : Except ServerError LaneServer :=
  (s.checkLane laneId).map fun _ => s.push (.spawned laneId none [] true none)

def forkLane (s : LaneServer) (fromLane newLane : LaneId) : Except ServerError LaneServer :=
  match s.checkLane newLane with
  | .error e => .error e
  | .ok () =>
    match s.lanes.lookup fromLane with
    | none => .error (.laneNotFound fromLane)
    | some source => .ok (s.push (.forking fromLane newLane source))

def removeLaneIfGeneration (s : LaneServer) (laneId : LaneId) (generation : ℕ) : LaneServer :=
  { s with lanes := s.lanes.filter fun l => l ≠ (laneId, generation) }

/-- The next step of a task; `fails` makes the write of the first head fail. -/
def advance (s : LaneServer) (task : ℕ) (fails : Bool) : LaneServer :=
  match s.tasks[task]? with
  | none => s
  | some (.resumed laneId head transcript) =>
    match s.checkLane laneId with
    | .error _ => { s with tasks := s.tasks.eraseIdx task }
    | .ok () => { s with tasks := s.tasks.set task (.spawned laneId head transcript false none) }
  | some (.forking fromLane newLane source) =>
    match s.runtimes[source]? with
    | none => { s with tasks := s.tasks.eraseIdx task }
    | some r =>
      -- the runtime of a fork starts with an empty transcript, whatever the head is
      { s with tasks := s.tasks.set task (.spawned newLane r.writer.head [] true (some fromLane)) }
  | some (.spawned laneId head transcript persistInitial fromLane) =>
    match s.checkInsert laneId fromLane with
    | .error _ => { s with tasks := s.tasks.eraseIdx task }
    | .ok () =>
      { s with
        lanes := (laneId, s.runtimes.length) :: s.lanes
        runtimes := s.runtimes ++ [⟨⟨laneId, head⟩, transcript, []⟩]
        tasks := if persistInitial then s.tasks.set task (.registered laneId head s.runtimes.length)
          else s.tasks.eraseIdx task }
  | some (.registered laneId head generation) =>
    let written := s.storage.persistInitialHead laneId head fails
    let s' : LaneServer := { s with storage := written.2, tasks := s.tasks.eraseIdx task }
    match written.1 with
    | .error _ => s'.removeLaneIfGeneration laneId generation
    | .ok () => s'

/-- The bridge of a lane writes a message and goes on whatever the result is. -/
def append (s : LaneServer) (lane : ℕ) (message : Message) (fault : WriteFault) : LaneServer :=
  match s.runtimes[lane]? with
  | none => s
  | some r =>
    let written := r.writer.append s.storage message fault
    { s with
      storage := written.2.2
      runtimes := s.runtimes.set lane
        { r with
          writer := written.2.1
          acked := r.acked ++ (written.1.toOption.map fun _ => message).toList } }

end LaneServer

inductive LaneAction where
  | restart
  | createSession (headStore : Bool)
  | loadSession (headStore : Bool)
  | loadAndResume (headStore : Bool) (laneId : LaneId) (head : Option NodeId)
  | resumeLane (laneId : LaneId) (head : Option NodeId)
  | spawnLane (laneId : LaneId)
  | forkLane (fromLane newLane : LaneId)
  | advance (task : ℕ) (fails : Bool)
  | append (lane : ℕ) (message : Message) (fault : WriteFault)
  deriving DecidableEq, Repr

/-- A call that returns an error changes nothing. -/
def LaneServer.step (s : LaneServer) : LaneAction → LaneServer
  | .restart => s.restart
  | .createSession headStore => (s.createSession headStore).toOption.getD s
  | .loadSession headStore => (s.loadSession headStore).toOption.getD s
  | .loadAndResume headStore laneId head =>
    (s.loadAndResume headStore laneId head).toOption.getD s
  | .resumeLane laneId head => (s.resumeLane laneId head).toOption.getD s
  | .spawnLane laneId => (s.spawnLane laneId).toOption.getD s
  | .forkLane fromLane newLane => (s.forkLane fromLane newLane).toOption.getD s
  | .advance task fails => s.advance task fails
  | .append lane message fault => s.append lane message fault

/-- The call opens the file or takes a snapshot. -/
def LaneAction.reads : LaneAction → Bool
  | .createSession _ | .loadSession _ | .loadAndResume _ _ _ | .resumeLane _ _ => true
  | .restart | .spawnLane _ | .forkLane _ _ | .advance _ _ | .append _ _ _ => false

namespace LaneServer

/-- The server as it is over other records. -/
def withRecords (s : LaneServer) (records : List SessionRecord) : LaneServer :=
  { s with storage := { s.storage with records := records } }

/-- A call over the bytes of the file: where it reads, it sees the records that are read of the
file, and it fails when the file cannot be read. -/
def callOver (s : LaneServer) (file : FileBytes) (a : LaneAction) : LaneServer :=
  if a.reads then
    match readRecords file with
    | .error _ => s
    | .ok records => ((s.withRecords records).step a).withRecords s.storage.records
  else s.step a

end LaneServer

end Guigu
