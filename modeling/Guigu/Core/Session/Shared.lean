import Guigu.Core.Session.JsonlRead

/-! The shared write entry of the lanes of one process, over the records of the storage behind
it, and the write cursor of a lane. Every operation runs under the write lock, so it is one
step. -/
namespace Guigu

/-- `headCommitted` are the lanes whose head this process has put on record. -/
structure SharedSessionStorage where
  sessionId : String
  records : List SessionRecord
  nextId : NodeId
  headStore : Bool
  headCommitted : List LaneId
  deriving DecidableEq, Repr

/-- Which write of a combined append fails, if any. -/
inductive WriteFault where
  | clean
  | message
  | head
  deriving DecidableEq, Repr

namespace SharedSessionStorage

/-- The storage of a new process: the cursor stands behind the records, nothing is committed. -/
def reopen (sessionId : String) (records : List SessionRecord) (headStore : Bool) :
    Except SessionError SharedSessionStorage :=
  (cursorAfter records).map fun next => ⟨sessionId, records, next, headStore, []⟩

def append (s : SharedSessionStorage) (parentId : Option NodeId) (message : Message)
    (fails : Bool) : Except SessionError NodeId × SharedSessionStorage :=
  if s.nextId = maxNodeId then (.error .idExhausted, s)
  else if fails then (.error .io, { s with nextId := s.nextId + 1 })
  else
    (.ok s.nextId,
      { s with
        nextId := s.nextId + 1
        records := s.records ++ [.message ⟨s.nextId, parentId, message⟩] })

/-- Put a head on record and mark its lane as committed. -/
def commitHead (s : SharedSessionStorage) (laneId : LaneId) (head : Option NodeId) :
    SharedSessionStorage :=
  { s with
    records := s.records ++ [.laneHead ⟨laneId, head⟩]
    headCommitted := laneId :: s.headCommitted }

/-- The message and then the head of its lane; a message whose head fails stays behind. -/
def appendWithHead (s : SharedSessionStorage) (laneId : LaneId) (parentId : Option NodeId)
    (message : Message) (fault : WriteFault) : Except SessionError NodeId × SharedSessionStorage :=
  match s.append parentId message (fault = .message) with
  | (.error e, s') => (.error e, s')
  | (.ok id, s') =>
    if s'.headStore then
      if fault = .head then (.error .io, s') else (.ok id, s'.commitHead laneId (some id))
    else (.ok id, s')

/-- The first head of a lane, unless the lane has committed one already. -/
def persistInitialHead (s : SharedSessionStorage) (laneId : LaneId) (head : Option NodeId)
    (fails : Bool) : Except SessionError Unit × SharedSessionStorage :=
  if laneId ∈ s.headCommitted then (.ok (), s)
  else if s.headStore then
    if fails then (.error .io, s) else (.ok (), s.commitHead laneId head)
  else (.ok (), { s with headCommitted := laneId :: s.headCommitted })

def load (s : SharedSessionStorage) :
    Except SessionError (SessionTree × SharedSessionStorage) :=
  (loadRecords s.records s.sessionId s.nextId).map fun r => (r.1, { s with nextId := r.2 })

def loadLaneHeads (s : SharedSessionStorage) : LaneId → Option (Option NodeId) :=
  if s.headStore then laneHeads s.records else fun _ => none

/-- Tree and heads of one view of the log. -/
def snapshot (s : SharedSessionStorage) :
    Except SessionError
      ((SessionTree × (LaneId → Option (Option NodeId))) × SharedSessionStorage) :=
  s.load.map fun r => ((r.1, s.loadLaneHeads), r.2)

/-- A first head is written when the lane has none on record, and the write goes through. -/
theorem persistInitialHead_cases (s : SharedSessionStorage) (laneId : LaneId)
    (head : Option NodeId) (fails : Bool) :
    (laneId ∈ s.headCommitted ∧ s.persistInitialHead laneId head fails = (.ok (), s)) ∨
      (laneId ∉ s.headCommitted ∧ s.headStore = true ∧ fails = true ∧
        s.persistInitialHead laneId head fails = (.error .io, s)) ∨
      (laneId ∉ s.headCommitted ∧ s.headStore = true ∧ fails = false ∧
        s.persistInitialHead laneId head fails = (.ok (), s.commitHead laneId head)) ∨
      (laneId ∉ s.headCommitted ∧ s.headStore = false ∧
        s.persistInitialHead laneId head fails =
          (.ok (), { s with headCommitted := laneId :: s.headCommitted })) := by
  unfold persistInitialHead
  split_ifs with hmem hstore hfails
  · exact Or.inl ⟨hmem, rfl⟩
  · exact Or.inr (Or.inl ⟨hmem, hstore, hfails, rfl⟩)
  · exact Or.inr (Or.inr (Or.inl ⟨hmem, hstore, by simpa using hfails, rfl⟩))
  · exact Or.inr (Or.inr (Or.inr ⟨hmem, by simpa using hstore, rfl⟩))

@[simp] theorem entriesOf_commitHead (s : SharedSessionStorage) (laneId : LaneId)
    (head : Option NodeId) :
    entriesOf (s.commitHead laneId head).records = entriesOf s.records := by
  rw [commitHead, entriesOf_append]
  exact List.append_nil _

end SharedSessionStorage

structure LaneWriter where
  laneId : LaneId
  head : Option NodeId
  deriving DecidableEq, Repr

/-- Append behind the head; only success moves the head. -/
def LaneWriter.append (w : LaneWriter) (s : SharedSessionStorage) (message : Message)
    (fault : WriteFault) : Except SessionError NodeId × LaneWriter × SharedSessionStorage :=
  match s.appendWithHead w.laneId w.head message fault with
  | (.error e, s') => (.error e, w, s')
  | (.ok id, s') => (.ok id, { w with head := some id }, s')

/-- The entry an append of the writer puts on record. -/
def LaneWriter.entry (w : LaneWriter) (s : SharedSessionStorage) (message : Message) :
    SessionEntry := ⟨s.nextId, w.head, message⟩

/-- An append leaves the records alone, leaves a message without its head, or succeeds. -/
theorem LaneWriter.append_cases (w : LaneWriter) (s : SharedSessionStorage) (message : Message)
    (fault : WriteFault) :
    (∃ e next, w.append s message fault = (.error e, w, { s with nextId := next }) ∧
        s.nextId ≤ next ∧ (s.nextId ≤ maxNodeId → next ≤ maxNodeId) ∧
        (s.nextId = maxNodeId ∨ fault = .message)) ∨
      (s.nextId ≠ maxNodeId ∧ s.headStore = true ∧ fault = .head ∧
        w.append s message fault = (.error .io, w,
          { s with
            nextId := s.nextId + 1
            records := s.records ++ [.message (w.entry s message)] })) ∨
      (s.nextId ≠ maxNodeId ∧ fault ≠ .message ∧ (s.headStore = true → fault = .clean) ∧
        w.append s message fault = (.ok s.nextId, { w with head := some s.nextId },
          { s with
            nextId := s.nextId + 1
            records := s.records ++ .message (w.entry s message) ::
              (if s.headStore then [.laneHead ⟨w.laneId, some s.nextId⟩] else [])
            headCommitted := if s.headStore then w.laneId :: s.headCommitted
              else s.headCommitted })) := by
  by_cases hmax : s.nextId = maxNodeId
  · refine Or.inl ⟨.idExhausted, s.nextId, ?_, le_refl _, id, Or.inl hmax⟩
    change _ = (_, w, s)
    simp [append, SharedSessionStorage.appendWithHead, SharedSessionStorage.append, hmax]
  have hnext : s.nextId ≤ maxNodeId → s.nextId + 1 ≤ maxNodeId := fun hle =>
    Nat.lt_of_le_of_ne hle hmax
  cases fault with
  | message =>
    refine Or.inl ⟨.io, s.nextId + 1, ?_, Nat.le_succ _, hnext, Or.inr rfl⟩
    simp [append, SharedSessionStorage.appendWithHead, SharedSessionStorage.append, hmax]
  | head =>
    cases hstore : s.headStore with
    | true =>
      refine Or.inr (Or.inl ⟨hmax, rfl, rfl, ?_⟩)
      simp [append, entry, SharedSessionStorage.appendWithHead, SharedSessionStorage.append, hmax,
        hstore]
    | false =>
      refine Or.inr (Or.inr ⟨hmax, by simp, by simp, ?_⟩)
      simp [append, entry, SharedSessionStorage.appendWithHead, SharedSessionStorage.append, hmax,
        hstore]
  | clean =>
    refine Or.inr (Or.inr ⟨hmax, by simp, fun _ => rfl, ?_⟩)
    cases hstore : s.headStore with
    | true =>
      simp [append, entry, SharedSessionStorage.appendWithHead, SharedSessionStorage.append, hmax,
        hstore, SharedSessionStorage.commitHead]
    | false =>
      simp [append, entry, SharedSessionStorage.appendWithHead, SharedSessionStorage.append, hmax,
        hstore]

end Guigu
