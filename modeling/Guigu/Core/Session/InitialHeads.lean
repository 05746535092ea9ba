import Guigu.Core.Session.LaneWriters

/-! Lanes that are new in a process: their first head is put on record at some time, their bridges
append at any time, and the head on record is the newest one, over the records of the storage and
over the bytes of its file. -/
namespace Guigu

/-- A new lane, the head it was created with, what its appends returned, and whether its first
head was put on record. -/
structure NewLane where
  writer : LaneWriter
  initial : Option NodeId
  appended : List NodeId
  persisted : Bool
  deriving DecidableEq, Repr

structure NewLanes where
  storage : SharedSessionStorage
  lanes : List NewLane
  deriving DecidableEq, Repr

/-- A lane is spawned or forked with a head of any kind. -/
inductive NewLaneAction where
  | create (laneId : LaneId) (head : Option NodeId)
  | persistInitialHead (lane : ℕ) (fails : Bool)
  | append (lane : ℕ) (message : Message) (fault : WriteFault)
  | appendMessage (parentId : Option NodeId) (message : Message) (fails : Bool)
  deriving DecidableEq, Repr

namespace NewLanes

/-- The table of lanes takes a lane id once. -/
def step (s : NewLanes) : NewLaneAction → NewLanes
  | .create laneId head =>
    if laneId ∈ s.lanes.map (·.writer.laneId) then s
    else { s with lanes := s.lanes ++ [⟨⟨laneId, head⟩, head, [], false⟩] }
  | .persistInitialHead lane fails =>
    match s.lanes[lane]? with
    | none => s
    | some l =>
      let written := s.storage.persistInitialHead l.writer.laneId l.initial fails
      ⟨written.2, s.lanes.set lane { l with persisted := l.persisted || written.1.isOk }⟩
  | .append lane message fault =>
    match s.lanes[lane]? with
    | none => s
    | some l =>
      let written := l.writer.append s.storage message fault
      ⟨written.2.2, s.lanes.set lane
        { l with
          writer := written.2.1
          appended := l.appended ++ written.1.toOption.toList }⟩
  | .appendMessage parentId message fails =>
    { s with storage := (s.storage.append parentId message fails).2 }

/-- The head of a lane is its last append, or the one it was created with; so it is on record
once one of the two was written. -/
def Replayed (s : NewLanes) : Prop :=
  ∀ l ∈ s.lanes, l.writer.head = l.appended.getLast?.or l.initial ∧
    (l.persisted = true ∨ l.appended ≠ [] →
      s.storage.loadLaneHeads l.writer.laneId = some l.writer.head)

end NewLanes

/-- What the storage knows of a lane. -/
structure NewLane.Kept (storage : SharedSessionStorage) (l : NewLane) : Prop where
  newest : l.writer.head = l.appended.getLast?.or l.initial
  committed : l.writer.laneId ∈ storage.headCommitted ↔ l.persisted = true ∨ l.appended ≠ []
  onRecord : l.writer.laneId ∈ storage.headCommitted →
    laneHeads storage.records l.writer.laneId = some l.writer.head

/-- A storage that looks the same to a lane. -/
theorem NewLane.Kept.congr {storage storage' : SharedSessionStorage} {l : NewLane}
    (h : l.Kept storage)
    (hcommitted : l.writer.laneId ∈ storage'.headCommitted ↔
      l.writer.laneId ∈ storage.headCommitted)
    (hheads : laneHeads storage'.records l.writer.laneId =
      laneHeads storage.records l.writer.laneId) : l.Kept storage' := by
  refine ⟨h.newest, hcommitted.trans h.committed, ?_⟩
  intro hmem
  rw [hheads]
  exact h.onRecord (hcommitted.mp hmem)

/-- The head of another lane goes on record. -/
theorem NewLane.Kept.commit_other {storage storage' : SharedSessionStorage} {l : NewLane}
    (h : l.Kept storage) {laneId : LaneId} (hne : l.writer.laneId ≠ laneId)
    {head : Option NodeId} {messages : List SessionRecord}
    (hmessages : laneHeads messages l.writer.laneId = laneHeads storage.records l.writer.laneId)
    (hrecords : storage'.records = messages ++ [.laneHead ⟨laneId, head⟩])
    (hcommitted : storage'.headCommitted = laneId :: storage.headCommitted) :
    l.Kept storage' := by
  apply h.congr
  · rw [hcommitted, List.mem_cons]
    exact or_iff_right hne
  · rw [hrecords, laneHeads_laneHead, Function.update_of_ne hne, hmessages]

namespace NewLanes

/-- Every lane id is in use once, and only lanes in use are committed. -/
structure Registered (s : NewLanes) : Prop where
  store : s.storage.headStore = true
  nodup : (s.lanes.map (·.writer.laneId)).Nodup
  known : ∀ laneId ∈ s.storage.headCommitted, laneId ∈ s.lanes.map (·.writer.laneId)
  kept : ∀ l ∈ s.lanes, l.Kept s.storage

variable {s : NewLanes}

theorem Registered.replayed (h : s.Registered) : s.Replayed := by
  intro l hl
  have hkept := h.kept l hl
  refine ⟨hkept.newest, fun hwritten => ?_⟩
  rw [SharedSessionStorage.loadLaneHeads, if_pos h.store]
  exact hkept.onRecord (hkept.committed.mpr hwritten)

/-- One lane and the storage change, the other lanes notice nothing. -/
theorem Registered.set (h : s.Registered) {lane : ℕ} {l l' : NewLane}
    (hl : s.lanes[lane]? = some l) (hid : l'.writer.laneId = l.writer.laneId)
    {storage : SharedSessionStorage} (hstore : storage.headStore = true)
    (hknown : ∀ laneId ∈ storage.headCommitted,
      laneId = l.writer.laneId ∨ laneId ∈ s.storage.headCommitted)
    (hkept : l'.Kept storage)
    (hothers : ∀ q : NewLane,
      q.writer.laneId ≠ l.writer.laneId → q.Kept s.storage → q.Kept storage) :
    Registered ⟨storage, s.lanes.set lane l'⟩ := by
  have hids : (s.lanes.set lane l').map (·.writer.laneId) = s.lanes.map (·.writer.laneId) := by
    have hmapped : (s.lanes.map (·.writer.laneId))[lane]? = some l.writer.laneId := by
      rw [List.getElem?_map, hl]
      rfl
    obtain ⟨hlen, hget⟩ := List.getElem?_eq_some_iff.mp hmapped
    rw [List.map_set, hid, ← hget, List.set_getElem_self]
  refine ⟨hstore, hids ▸ h.nodup, ?_, ?_⟩
  · intro laneId hmem
    rw [hids]
    rcases hknown laneId hmem with rfl | hmem
    · exact List.mem_map_of_mem (f := fun l => l.writer.laneId) (List.mem_of_getElem? hl)
    · exact h.known laneId hmem
  · intro q hq
    obtain ⟨j, hj⟩ := List.mem_iff_getElem?.mp hq
    rw [List.getElem?_set] at hj
    split_ifs at hj with hlane hlen
    · exact Option.some.inj hj ▸ hkept
    · -- another place in the table has another lane id
      refine hothers q ?_ (h.kept q (List.mem_of_getElem? hj))
      intro hsame
      have hat : (s.lanes.map (·.writer.laneId))[j]? = (s.lanes.map (·.writer.laneId))[lane]? := by
        rw [List.getElem?_map, List.getElem?_map, hj, hl, Option.map_some, Option.map_some, hsame]
      have hbound : lane < (s.lanes.map (·.writer.laneId)).length := by
        rw [List.length_map]
        exact (List.getElem?_eq_some_iff.mp hl).1
      exact hlane ((List.getElem?_inj hbound h.nodup).mp hat.symm)

theorem Registered.create (h : s.Registered) (laneId : LaneId) (head : Option NodeId) :
    (s.step (.create laneId head)).Registered := by
  simp only [step]
  split_ifs with hmem
  · exact h
  have hfresh : laneId ∉ s.storage.headCommitted := fun hin => hmem (h.known laneId hin)
  refine ⟨h.store, ?_, ?_, ?_⟩
  · show ((s.lanes ++ [_]).map _).Nodup
    rw [List.map_append]
    exact List.nodup_append'.mpr ⟨h.nodup, List.nodup_singleton _, by simpa using hmem⟩
  · intro laneId' hin
    show laneId' ∈ (s.lanes ++ [_]).map _
    rw [List.map_append]
    exact List.mem_append_left _ (h.known laneId' hin)
  · intro q hq
    rcases List.mem_append.mp hq with hq | hq
    · exact h.kept q hq
    · rw [List.mem_singleton.mp hq]
      refine ⟨rfl, ?_, fun hin => absurd hin hfresh⟩
      constructor
      · exact fun hin => absurd hin hfresh
      · rintro (hpersisted | happended)
        · cases hpersisted
        · exact absurd rfl happended

theorem Registered.persistInitialHead (h : s.Registered) (lane : ℕ) (fails : Bool) :
    (s.step (.persistInitialHead lane fails)).Registered := by
  simp only [step]
  cases hl : s.lanes[lane]? with
  | none => exact h
  | some l =>
    have hkept := h.kept l (List.mem_of_getElem? hl)
    rcases s.storage.persistInitialHead_cases l.writer.laneId l.initial fails with
      ⟨hmem, hp⟩ | ⟨hmem, -, -, hp⟩ | ⟨hmem, -, -, hp⟩ | ⟨-, hstore, -⟩
    · -- a bridge or an earlier call was first
      simp only [hp]
      refine h.set hl ?_ h.store (fun _ hin => .inr hin) ?_ ?_
      · rfl
      · refine ⟨hkept.newest, ?_, hkept.onRecord⟩
        exact iff_of_true hmem (.inl (Bool.or_true _))
      · exact fun _ _ hq => hq
    · simp only [hp]
      refine h.set hl ?_ h.store (fun _ hin => .inr hin) ?_ ?_
      · rfl
      · refine ⟨hkept.newest, ?_, hkept.onRecord⟩
        show _ ↔ (l.persisted || false) = true ∨ _
        rw [Bool.or_false]
        exact hkept.committed
      · exact fun _ _ hq => hq
    · simp only [hp]
      refine h.set hl ?_ h.store (fun _ hin => List.mem_cons.mp hin) ?_ ?_
      · rfl
      · refine ⟨hkept.newest, ?_, ?_⟩
        · exact iff_of_true List.mem_cons_self (.inl (Bool.or_true _))
        · intro _
          have hnil : l.appended = [] := by
            by_contra happended
            exact hmem (hkept.committed.mpr (.inr happended))
          have hhead : l.writer.head = l.initial := by
            rw [hkept.newest, hnil]
            rfl
          show laneHeads (s.storage.records ++ [_]) _ = _
          rw [laneHeads_laneHead, Function.update_self, hhead]
      · exact fun q hne hq => hq.commit_other hne rfl rfl rfl
    · rw [h.store] at hstore
      cases hstore

theorem Registered.append (h : s.Registered) (lane : ℕ) (message : Message)
    (fault : WriteFault) : (s.step (.append lane message fault)).Registered := by
  simp only [step]
  cases hl : s.lanes[lane]? with
  | none => exact h
  | some l =>
    have hkept := h.kept l (List.mem_of_getElem? hl)
    rcases l.writer.append_cases s.storage message fault with
      ⟨e, next, hw, -, -⟩ | ⟨-, -, -, hw⟩ | ⟨-, -, -, hw⟩
    · simp only [hw, Except.toOption, Option.toList_none, List.append_nil]
      refine h.set hl ?_ h.store (fun _ hin => .inr hin) ?_ ?_
      · rfl
      · exact hkept.congr Iff.rfl rfl
      · exact fun _ _ hq => hq.congr Iff.rfl rfl
    · -- the message stays behind without a head
      simp only [hw, Except.toOption, Option.toList_none, List.append_nil]
      refine h.set hl ?_ h.store (fun _ hin => .inr hin) ?_ ?_
      · rfl
      · exact hkept.congr Iff.rfl (by rw [laneHeads_message])
      · exact fun _ _ hq => hq.congr Iff.rfl (by rw [laneHeads_message])
    · have hrecords : s.storage.records ++ [.message (l.writer.entry s.storage message),
          .laneHead ⟨l.writer.laneId, some s.storage.nextId⟩] =
          (s.storage.records ++ [.message (l.writer.entry s.storage message)]) ++
            [.laneHead ⟨l.writer.laneId, some s.storage.nextId⟩] := by
        rw [List.append_assoc]
        rfl
      simp only [hw, if_pos h.store, Except.toOption, Option.toList_some, hrecords]
      refine h.set hl ?_ h.store (fun _ hin => List.mem_cons.mp hin) ?_ ?_
      · rfl
      · refine ⟨?_, ?_, ?_⟩
        · show some _ = (l.appended ++ [_]).getLast?.or l.initial
          rw [List.getLast?_concat]
          rfl
        · exact iff_of_true List.mem_cons_self (.inr (by simp))
        · intro _
          show laneHeads (_ ++ [_]) _ = _
          rw [laneHeads_laneHead, Function.update_self]
      · intro q hne hq
        have hbehind := congrFun
          (laneHeads_message s.storage.records (l.writer.entry s.storage message)) q.writer.laneId
        exact hq.commit_other hne hbehind rfl rfl

theorem Registered.appendMessage (h : s.Registered) (parentId : Option NodeId)
    (message : Message) (fails : Bool) :
    (s.step (.appendMessage parentId message fails)).Registered := by
  have hsame : (s.storage.append parentId message fails).2.headStore = s.storage.headStore ∧
      (s.storage.append parentId message fails).2.headCommitted = s.storage.headCommitted ∧
      laneHeads (s.storage.append parentId message fails).2.records =
        laneHeads s.storage.records := by
    unfold SharedSessionStorage.append
    split_ifs
    · exact ⟨rfl, rfl, rfl⟩
    · exact ⟨rfl, rfl, rfl⟩
    · exact ⟨rfl, rfl, laneHeads_message _ _⟩
  obtain ⟨hstore, hcommitted, hheads⟩ := hsame
  refine ⟨hstore.trans h.store, h.nodup, ?_, ?_⟩
  · intro laneId hin
    exact h.known laneId (hcommitted ▸ hin)
  · intro q hq
    apply (h.kept q hq).congr
    · show _ ∈ (s.storage.append parentId message fails).2.headCommitted ↔ _
      rw [hcommitted]
    · show laneHeads (s.storage.append parentId message fails).2.records _ = _
      rw [hheads]

theorem Registered.step (h : s.Registered) (a : NewLaneAction) : (s.step a).Registered := by
  cases a with
  | create laneId head => exact h.create laneId head
  | persistInitialHead lane fails => exact h.persistInitialHead lane fails
  | append lane message fault => exact h.append lane message fault
  | appendMessage parentId message fails => exact h.appendMessage parentId message fails

theorem Registered.opened {sessionId : String} {records : List SessionRecord}
    {storage : SharedSessionStorage}
    (hopen : SharedSessionStorage.reopen sessionId records true = .ok storage) :
    Registered ⟨storage, []⟩ := by
  unfold SharedSessionStorage.reopen at hopen
  cases hnext : cursorAfter records with
  | error e =>
    rw [hnext] at hopen
    cases hopen
  | ok next =>
    rw [hnext] at hopen
    obtain rfl := Except.ok.inj hopen
    refine ⟨rfl, List.nodup_nil, ?_, ?_⟩
    · intro laneId hin
      cases hin
    · intro l hl
      cases hl

end NewLanes

/-- New lanes over the bytes of the file. -/
structure NewFileLanes where
  file : FileBytes
  storage : SharedFile
  lanes : List NewLane
  deriving DecidableEq, Repr

inductive NewFileLaneAction where
  | create (laneId : LaneId) (head : Option NodeId)
  | persistInitialHead (lane : ℕ) (out : WriteOutcome)
  | append (lane : ℕ) (message : Message) (out headOut : WriteOutcome)
  | appendMessage (parentId : Option NodeId) (message : Message) (out : WriteOutcome)
  deriving DecidableEq, Repr

namespace NewFileLanes

def step (s : NewFileLanes) : NewFileLaneAction → NewFileLanes
  | .create laneId head =>
    if laneId ∈ s.lanes.map (·.writer.laneId) then s
    else { s with lanes := s.lanes ++ [⟨⟨laneId, head⟩, head, [], false⟩] }
  | .persistInitialHead lane out =>
    match s.lanes[lane]? with
    | none => s
    | some l =>
      let written := s.storage.persistInitialHead s.file l.writer.laneId l.initial out
      ⟨written.2.2, written.2.1,
        s.lanes.set lane { l with persisted := l.persisted || written.1.isOk }⟩
  | .append lane message out headOut =>
    match s.lanes[lane]? with
    | none => s
    | some l =>
      let written := l.writer.appendTo s.storage s.file message out headOut
      ⟨written.2.2.2, written.2.2.1, s.lanes.set lane
        { l with
          writer := written.2.1
          appended := l.appended ++ written.1.toOption.toList }⟩
  | .appendMessage parentId message out =>
    let written := s.storage.append s.file parentId message out
    { s with file := written.2.2, storage := written.2.1 }

/-- What is written can be read back. -/
def ReadBack (s : NewFileLanes) : NewFileLaneAction → Prop
  | .create _ _ => True
  | .persistInitialHead lane out => ∀ l ∈ s.lanes[lane]?,
    s.storage.SafePersist s.file l.writer.laneId l.initial out
  | .append lane message out headOut => ∀ l ∈ s.lanes[lane]?,
    s.storage.SafeAppend s.file l.writer.laneId l.writer.head message out headOut
  | .appendMessage parentId message out => s.storage.inner.nextId ≠ maxNodeId →
    SafeWrite s.file (.message ⟨s.storage.inner.nextId, parentId, message⟩) out

instance (s : NewFileLanes) : (a : NewFileLaneAction) → Decidable (s.ReadBack a)
  | .create _ _ => .isTrue trivial
  | .persistInitialHead lane out => inferInstanceAs (Decidable (∀ l ∈ s.lanes[lane]?,
    s.storage.SafePersist s.file l.writer.laneId l.initial out))
  | .append lane message out headOut => inferInstanceAs (Decidable (∀ l ∈ s.lanes[lane]?,
    s.storage.SafeAppend s.file l.writer.laneId l.writer.head message out headOut))
  | .appendMessage parentId message out =>
    inferInstanceAs (Decidable (s.storage.inner.nextId ≠ maxNodeId →
      SafeWrite s.file (.message ⟨s.storage.inner.nextId, parentId, message⟩) out))

/-- The head of a lane is its last append, or the one it was created with; and once one of the two
was written, it is what is read of the file. -/
def Replayed (s : NewFileLanes) : Prop :=
  ∃ heads, s.storage.loadLaneHeads s.file = .ok heads ∧
    ∀ l ∈ s.lanes, l.writer.head = l.appended.getLast?.or l.initial ∧
      (l.persisted = true ∨ l.appended ≠ [] → heads l.writer.laneId = some l.writer.head)

/-- The same lanes over the records that are read of the file. -/
def Shows (s : NewFileLanes) (t : NewLanes) : Prop :=
  s.lanes = t.lanes ∧ s.storage.Shows s.file t.storage

/-- What is done over the file is done over the records. -/
theorem Shows.step {s : NewFileLanes} {t : NewLanes} (h : s.Shows t) {a : NewFileLaneAction}
    (ha : s.ReadBack a) : ∃ b, (s.step a).Shows (t.step b) := by
  obtain ⟨file, storage, lanes⟩ := s
  obtain ⟨records, lanes'⟩ := t
  obtain ⟨rfl, hshows⟩ : lanes = lanes' ∧ storage.Shows file records := h
  cases a with
  | create laneId head =>
    refine ⟨.create laneId head, ?_⟩
    simp only [NewFileLanes.step, NewLanes.step]
    split_ifs
    · exact ⟨rfl, hshows⟩
    · exact ⟨rfl, hshows⟩
  | persistInitialHead lane out =>
    refine ⟨.persistInitialHead lane out.fails, ?_⟩
    cases hl : lanes[lane]? with
    | none =>
      simp only [NewFileLanes.step, NewLanes.step, hl]
      exact ⟨rfl, hshows⟩
    | some l =>
      obtain ⟨hreturned, hshows'⟩ := hshows.persistInitialHead (ha l hl)
      simp only [NewFileLanes.step, NewLanes.step, hl, hreturned]
      exact ⟨rfl, hshows'⟩
  | append lane message out headOut =>
    refine ⟨.append lane message (out.fault headOut), ?_⟩
    cases hl : lanes[lane]? with
    | none =>
      simp only [NewFileLanes.step, NewLanes.step, hl]
      exact ⟨rfl, hshows⟩
    | some l =>
      obtain ⟨hreturned, hwriter, hshows'⟩ := LaneWriter.appendTo_shows hshows (ha l hl)
      simp only [NewFileLanes.step, NewLanes.step, hl, hreturned, hwriter]
      exact ⟨rfl, hshows'⟩
  | appendMessage parentId message out =>
    obtain ⟨-, hshows'⟩ := hshows.append ha
    exact ⟨.appendMessage parentId message out.fails, rfl, hshows'⟩

/-- As long as what is written can be read back, and whatever the order in which first heads are put
on record and lanes append, the head that is read of the file for a new lane is its last append, or
else the head it was created with. -/
theorem replayed_throughout {file : FileBytes} {sessionId : String}
    {records : List SessionRecord} {storage : SharedFile} (hholds : Holds file records)
    (hopen : SharedFile.reopen file sessionId true = .ok storage) {as : List NewFileLaneAction}
    (has : Runs.Along step ReadBack ⟨file, storage, []⟩ as) :
    Runs.Throughout step Replayed ⟨file, storage, []⟩ as := by
  obtain ⟨hreopen, hshows⟩ := SharedFile.Shows.reopen hholds hopen
  have hstart : NewFileLanes.Shows ⟨file, storage, []⟩ ⟨storage.withRecords records, []⟩ :=
    ⟨rfl, hshows⟩
  have hmatch : ∀ s t a, Shows s t → t.Registered → ReadBack s a →
      ∃ bs, Runs.Along NewLanes.step (fun _ _ => True) t bs ∧
        (step s a).Shows (Runs.run NewLanes.step t bs) := by
    intro s t a h _ ha
    obtain ⟨b, hb⟩ := h.step ha
    exact ⟨[b], ⟨trivial, trivial⟩, hb⟩
  refine Runs.throughout_of_matched hmatch (fun _ b h _ => h.step b) ?_ hstart
    (NewLanes.Registered.opened hreopen) has
  intro s t h hregistered
  have hstore : s.storage.headStore = true := h.2.headStore_eq.symm.trans hregistered.store
  refine ⟨laneHeads t.storage.records, ?_, ?_⟩
  · simp only [SharedFile.loadLaneHeads, hstore, ↓reduceIte, Guigu.loadLaneHeads, h.2.readRecords,
      Except.map]
  · rw [h.1]
    intro l hl
    obtain ⟨hnewest, hwritten⟩ := hregistered.replayed l hl
    refine ⟨hnewest, fun hput => ?_⟩
    have honRecord := hwritten hput
    rw [SharedSessionStorage.loadLaneHeads, if_pos hregistered.store] at honRecord
    exact honRecord

/-- A log in which lane a has a head. -/
def startedLog : List SessionRecord := [.message ⟨0, none, helloMessage⟩, .laneHead ⟨"a", some 0⟩]

/-- A bridge is faster than the first head of its lane, a first head is written late, and lane b is
forked where lane a stands; then a head is cut short. -/
theorem replayed_lateHeads :
    Runs.Throughout step Replayed ⟨logBytes startedLog, ⟨⟨"session", 1, false⟩, true, []⟩, []⟩
      [.create "a" none, .append 0 helloMessage .done .done, .create "b" (some 1),
        .persistInitialHead 0 .done, .append 1 helloMessage .done .done,
        .persistInitialHead 1 .done, .create "c" (some 1), .persistInitialHead 2 (.torn 0),
        .persistInitialHead 2 .done, .append 0 helloMessage .done (.torn 5)] := by
  have hlegible : ∀ r ∈ startedLog, r.Legible := by decide +kernel
  have hopen : SharedFile.reopen (logBytes startedLog) "session" true =
      .ok ⟨⟨"session", 1, false⟩, true, []⟩ := by
    rw [SharedFile.reopen_eq, readRecords_logBytes hlegible]
    rfl
  exact replayed_throughout (.of_complete (completeFile_logBytes hlegible)) hopen
    (by decide +kernel)

/-- Behind the first byte of a line that an earlier process left, a new lane appends, and no write
fails. -/
theorem tornLog_unreplayed :
    SharedFile.reopen [123] "session" true = .ok ⟨⟨"session", 0, false⟩, true, []⟩ ∧
      ¬ Runs.Throughout step Replayed ⟨[123], ⟨⟨"session", 0, false⟩, true, []⟩, []⟩
        [.create "a" none, .append 0 helloMessage .done .done] := by
  constructor
  · decide +kernel
  · intro hrun
    obtain ⟨heads, hheads, hlanes⟩ := hrun.last
    have hread : readRecords (Runs.run step ⟨[123], ⟨⟨"session", 0, false⟩, true, []⟩, []⟩
        [.create "a" none, .append 0 helloMessage .done .done]).file = .ok [] := by
      decide +kernel
    have hnone : heads = laneHeads [] := by
      simp only [SharedFile.loadLaneHeads, Guigu.loadLaneHeads, hread] at hheads
      exact (Except.ok.inj hheads).symm
    have hlane : (⟨⟨"a", some 0⟩, none, [0], false⟩ : NewLane) ∈ (Runs.run step
        ⟨[123], ⟨⟨"session", 0, false⟩, true, []⟩, []⟩
        [.create "a" none, .append 0 helloMessage .done .done]).lanes := by
      decide +kernel
    have hhead := (hlanes _ hlane).2 (.inr (by simp))
    rw [hnone] at hhead
    cases hhead

end NewFileLanes

end Guigu
