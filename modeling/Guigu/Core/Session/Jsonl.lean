import Guigu.Core.Session.Tree
import Guigu.Library.Lines

/-! The JSONL storage: one record a line, appended to a file that a crash may cut anywhere. -/
namespace Guigu

abbrev FileBytes := List UInt8

/-- `u64::MAX`. -/
def maxNodeId : NodeId := 2 ^ 64 - 1

structure JsonlSessionStorage where
  sessionId : String
  nextId : NodeId
  fileLock : Bool
  deriving DecidableEq, Repr

/-- `lines()` drops the carriage return in front of a line feed. -/
def stripReturn (l : Lines.Line) (cs : List Char) : List Char :=
  if l.terminated ∧ cs.getLast? = some '\r' then cs.dropLast else cs

def trimEndReturns (cs : List Char) : List Char :=
  (cs.reverse.dropWhile fun c => c = '\n' ∨ c = '\r').reverse

/-- A line that is no text makes the read fail; a text that is no record ends it. -/
def judgeLine (trim : Lines.Line → List Char → List Char) (l : Lines.Line) :
    Lines.Verdict SessionRecord :=
  match Utf8.decode l.body with
  | none => .undecodable
  | some cs =>
    match SessionRecord.fromStr (trim l cs) with
    | some r => .record r
    | none => .garbage

def readRecords (file : FileBytes) : Except SessionError (List SessionRecord) :=
  match Lines.scanBytes (judgeLine stripReturn) file with
  | none => .error .io
  | some rs => .ok (rs.map Prod.snd)

/-- The records, and how many bytes their lines take. -/
def readRecordsWithExtent (file : FileBytes) : Except SessionError (List SessionRecord × ℕ) :=
  match Lines.scanBytes (judgeLine fun _ => trimEndReturns) file with
  | none => .error .io
  | some rs => .ok (rs.map Prod.snd, (rs.map fun l => l.1.bytes.length).sum)

def entriesOf (records : List SessionRecord) : List SessionEntry :=
  records.filterMap SessionRecord.entry?

/-- The cursor behind the largest identifier, which must not be the last one. -/
def cursorAfter (records : List SessionRecord) : Except SessionError NodeId :=
  match ((entriesOf records).map (·.id)).max? with
  | none => .ok 0
  | some m => if m = maxNodeId then .error .idExhausted else .ok (m + 1)

/-- A missing file is created; the second component is the file afterwards. -/
def openStorage (file : Option FileBytes) (sessionId : String) :
    Except SessionError JsonlSessionStorage × FileBytes :=
  let bytes := file.getD []
  (match readRecords bytes with
    | .error e => .error e
    | .ok records => (cursorAfter records).map fun next => ⟨sessionId, next, false⟩, bytes)

def openLocked (file : Option FileBytes) (sessionId : String) :
    Except SessionError JsonlSessionStorage × FileBytes :=
  ((openStorage file sessionId).1.map fun s => { s with fileLock := true },
    (openStorage file sessionId).2)

def claimNextId (s : JsonlSessionStorage) : Except SessionError NodeId × JsonlSessionStorage :=
  if s.nextId = maxNodeId then (.error .idExhausted, s)
  else (.ok s.nextId, { s with nextId := s.nextId + 1 })

/-- Truncate the file behind its last legible line and raise the cursor. -/
def refreshCursorLocked (s : JsonlSessionStorage) (file : FileBytes) :
    Except SessionError JsonlSessionStorage × FileBytes :=
  match readRecordsWithExtent file with
  | .error e => (.error e, file)
  | .ok (records, validLen) =>
    let file' := if validLen < file.length then file.take validLen else file
    match cursorAfter records with
    | .error e => (.error e, file')
    | .ok floor => (.ok { s with nextId := max s.nextId floor }, file')

/-- How a write of one line ends: all of it is on disk, or only its first bytes are. -/
inductive WriteOutcome where
  | done
  | torn (written : ℕ)
  deriving DecidableEq, Repr

def SessionRecord.line (r : SessionRecord) : FileBytes := r.body ++ [10]

def writeLine (file : FileBytes) (r : SessionRecord) :
    WriteOutcome → Except SessionError Unit × FileBytes
  | .done => (.ok (), file ++ r.line)
  | .torn k => (.error .io, file ++ r.line.take k)

/-- Claim an identifier and write the node behind the file's last byte. -/
def appendClaimed (s : JsonlSessionStorage) (file : FileBytes) (parentId : Option NodeId)
    (message : Message) (out : WriteOutcome) :
    Except SessionError NodeId × JsonlSessionStorage × FileBytes :=
  match claimNextId s with
  | (.error e, s') => (.error e, s', file)
  | (.ok id, s') =>
    let written := writeLine file (.message ⟨id, parentId, message⟩) out
    (written.1.map fun _ => id, s', written.2)

def append (s : JsonlSessionStorage) (file : FileBytes) (parentId : Option NodeId)
    (message : Message) (out : WriteOutcome) :
    Except SessionError NodeId × JsonlSessionStorage × FileBytes :=
  if s.fileLock then
    match refreshCursorLocked s file with
    | (.error e, file') => (.error e, s, file')
    | (.ok s', file') => appendClaimed s' file' parentId message out
  else appendClaimed s file parentId message out

/-- The tree of the records, and the cursor raised above its largest identifier. -/
def loadRecords (records : List SessionRecord) (sessionId : String) (nextId : NodeId) :
    Except SessionError (SessionTree × NodeId) :=
  match reduceFor (entriesOf records) sessionId with
  | .error e => .error e
  | .ok tree =>
    match tree.nodes.getLast? with
    | none => .ok (tree, nextId)
    | some last =>
      if last.id = maxNodeId then .error .idExhausted
      else .ok (tree, max nextId (last.id + 1))

def load (s : JsonlSessionStorage) (file : FileBytes) :
    Except SessionError (SessionTree × JsonlSessionStorage) :=
  match readRecords file with
  | .error e => .error e
  | .ok records =>
    (loadRecords records s.sessionId s.nextId).map fun r => (r.1, { s with nextId := r.2 })

/-- The lock is held, but nothing is repaired before the write. -/
def appendLaneHead (file : FileBytes) (laneId : LaneId) (head : Option NodeId)
    (out : WriteOutcome) : Except SessionError Unit × FileBytes :=
  writeLine file (.laneHead ⟨laneId, head⟩) out

/-- The heads on record; the last record of a lane counts. -/
def laneHeads (records : List SessionRecord) : LaneId → Option (Option NodeId) :=
  (records.filterMap SessionRecord.head?).foldl
    (fun heads h => Function.update heads h.laneId (some h.head)) fun _ => none

def loadLaneHeads (file : FileBytes) :
    Except SessionError (LaneId → Option (Option NodeId)) :=
  (readRecords file).map laneHeads

end Guigu
