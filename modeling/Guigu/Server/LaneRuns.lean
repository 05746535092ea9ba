import Guigu.Server.Lane

/-! What the lanes of a session keep true of their log, whatever order their steps take. -/
namespace Guigu

open Runs

/-- The head of a lane under creation; a fork has read none yet. -/
def LaneTask.head : LaneTask → Option NodeId
  | .resumed _ head _ => head
  | .forking _ _ _ => none
  | .spawned _ head _ _ _ => head
  | .registered _ head _ => head

/-- The head is a node, and the acknowledged messages lie on the way to it, in order. -/
def LaneRuntime.Kept (log : List SessionEntry) (r : LaneRuntime) : Prop :=
  ∃ es, ChainTo log r.writer.head es ∧ r.acked.Sublist (es.map (·.message))

theorem LaneRuntime.Kept.append_right {log : List SessionEntry} {r : LaneRuntime}
    (h : r.Kept log) (more : List SessionEntry) : r.Kept (log ++ more) := by
  obtain ⟨es, hes, hsub⟩ := h
  exact ⟨es, hes.append_right more, hsub⟩

/-- Writing a message behind the head keeps it with the acknowledged ones. -/
theorem LaneRuntime.Kept.snoc {log : List SessionEntry} {r : LaneRuntime} (h : r.Kept log)
    {e : SessionEntry} (hp : e.parentId = r.writer.head) :
    LaneRuntime.Kept (log ++ [e])
      { r with
        writer := { r.writer with head := some e.id }
        acked := r.acked ++ [e.message] } := by
  obtain ⟨es, hes, hsub⟩ := h
  rw [← hp] at hes
  refine ⟨es ++ [e], hes.snoc, ?_⟩
  rw [List.map_append]
  exact hsub.append (List.Sublist.refl [e.message])

namespace LaneServer

/-- A log that grew node by node, and heads that are nodes of it. -/
structure Sound (s : LaneServer) : Prop where
  grown : GrownLog s.log
  below : ∀ e ∈ s.log, e.id < s.storage.nextId
  cursor : s.storage.nextId ≤ maxNodeId
  runtimes : ∀ r ∈ s.runtimes, r.Kept s.log
  tasks : ∀ t ∈ s.tasks, ∃ es, ChainTo s.log t.head es

/-- An append puts its message on record, whatever happens to the head. -/
def Writes (s : LaneServer) (fault : WriteFault) : Prop :=
  fault ≠ .message ∧ s.storage.nextId ≠ maxNodeId

/-- A lane without a node puts a message on record only while the log has none. -/
def RootsOnce (s : LaneServer) : LaneAction → Prop
  | .append lane _ fault => s.Writes fault →
    ∀ r ∈ s.runtimes[lane]?, r.writer.head = none → s.log = []
  | _ => True

instance (s : LaneServer) (fault : WriteFault) : Decidable (s.Writes fault) :=
  inferInstanceAs (Decidable (_ ∧ _))

instance (s : LaneServer) : (a : LaneAction) → Decidable (s.RootsOnce a)
  | .append lane _ fault => inferInstanceAs (Decidable (s.Writes fault →
      ∀ r ∈ s.runtimes[lane]?, r.writer.head = none → s.log = []))
  | .restart | .createSession _ | .loadSession _ | .loadAndResume _ _ _ | .resumeLane _ _
  | .spawnLane _ | .forkLane _ _ | .advance _ _ => .isTrue trivial

theorem Sound.fresh (sessionId : String) : Sound (fresh sessionId) := by
  refine ⟨.nil, ?_, Nat.zero_le _, ?_, ?_⟩ <;> intro x hx <;> cases hx

/-- Another storage over the same nodes, with a cursor that is no lower where it matters. -/
theorem Sound.setStorage {s : LaneServer} (h : s.Sound) (storage : SharedSessionStorage)
    (hlog : entriesOf storage.records = s.log) (hbelow : ∀ e ∈ s.log, e.id < storage.nextId)
    (hcursor : storage.nextId ≤ maxNodeId) : Sound { s with storage := storage } := by
  have hs : ({ s with storage := storage } : LaneServer).log = s.log := hlog
  refine ⟨?_, ?_, hcursor, ?_, ?_⟩
  · rw [hs]
    exact h.grown
  · rw [hs]
    exact hbelow
  · rw [hs]
    exact h.runtimes
  · rw [hs]
    exact h.tasks

theorem Sound.setTasks {s : LaneServer} (h : s.Sound) {tasks : List LaneTask}
    (ht : ∀ t ∈ tasks, t ∈ s.tasks ∨ ∃ es, ChainTo s.log t.head es) :
    Sound { s with tasks := tasks } := by
  refine ⟨h.grown, h.below, h.cursor, h.runtimes, fun t hmem => ?_⟩
  rcases ht t hmem with hold | hnew
  · exact h.tasks t hold
  · exact hnew

theorem Sound.eraseTask {s : LaneServer} (h : s.Sound) (task : ℕ) :
    Sound { s with tasks := s.tasks.eraseIdx task } :=
  h.setTasks fun _ ht => Or.inl (List.mem_of_mem_eraseIdx ht)

theorem Sound.setTask {s : LaneServer} (h : s.Sound) (task : ℕ) {t : LaneTask}
    (ht : ∃ es, ChainTo s.log t.head es) : Sound { s with tasks := s.tasks.set task t } := by
  apply h.setTasks
  intro t' ht'
  rcases List.mem_or_eq_of_mem_set ht' with hold | rfl
  · exact Or.inl hold
  · exact Or.inr ht

theorem Sound.restart {s : LaneServer} (h : s.Sound) : Sound s.restart := by
  refine ⟨h.grown, h.below, h.cursor, ?_, ?_⟩ <;> intro x hx <;> cases hx

theorem Sound.ids_lt {s : LaneServer} (h : s.Sound) : ∀ e ∈ s.log, e.id < maxNodeId :=
  fun e he => Nat.lt_of_lt_of_le (h.below e he) h.cursor

/-- Opening the file of a sound session never fails. -/
theorem Sound.openStorage {s : LaneServer} (h : s.Sound) (headStore : Bool) :
    ∃ next, s.openStorage headStore =
        .ok ⟨s.storage.sessionId, s.storage.records, next, headStore, []⟩ ∧
      next ≤ maxNodeId ∧ ∀ e ∈ s.log, e.id < next := by
  obtain ⟨next, hnext, hle, hlt⟩ := cursorAfter_ok h.ids_lt
  refine ⟨next, ?_, hle, hlt⟩
  rw [LaneServer.openStorage, SharedSessionStorage.reopen, hnext]
  rfl

/-- A snapshot of a sound session is its tree with the heads on record. -/
theorem Sound.snapshot {s : LaneServer} (h : s.Sound) (storage : SharedSessionStorage)
    (hrecords : storage.records = s.storage.records) :
    ∃ root next, storage.snapshot =
        .ok ((treeOf s.log storage.sessionId root, storage.loadLaneHeads),
          { storage with nextId := next }) ∧
      storage.nextId ≤ next ∧ (storage.nextId ≤ maxNodeId → next ≤ maxNodeId) := by
  have hlog : entriesOf storage.records = s.log := by rw [hrecords]; rfl
  have hgrown : GrownLog (entriesOf storage.records) := by
    rw [hlog]
    exact h.grown
  have hids : ∀ e ∈ entriesOf storage.records, e.id < maxNodeId := by
    rw [hlog]
    exact h.ids_lt
  obtain ⟨root, next, -, hload, hle⟩ :=
    loadRecords_grown hgrown hids storage.sessionId storage.nextId
  refine ⟨root, next, ?_, hle, ?_⟩
  · rw [SharedSessionStorage.snapshot, SharedSessionStorage.load, hload, hlog]
    rfl
  · exact (loadRecords_ok hload).2 fun e he => Nat.le_of_lt (hids e he)

/-- The task a call starts. -/
inductive Starts (s : LaneServer) (storage : SharedSessionStorage) : LaneAction → LaneTask → Prop
  | spawn (laneId : LaneId) :
      Starts s storage (.spawnLane laneId) (.spawned laneId none [] true none)
  | fork (fromLane newLane : LaneId) (source : ℕ) : s.lanes.lookup fromLane = some source →
      Starts s storage (.forkLane fromLane newLane) (.forking fromLane newLane source)
  | resume {a : LaneAction} {laneId : LaneId} {head head' : Option NodeId}
      {transcript : List Message} {root : Option NodeId} :
      (a = .resumeLane laneId head ∨ ∃ headStore, a = .loadAndResume headStore laneId head) →
      resolveResumeHead (treeOf s.log s.storage.sessionId root) head
        (storage.loadLaneHeads laneId) = .ok (head', transcript) →
      Starts s storage a (.resumed laneId head' transcript)

theorem Starts.placed {s : LaneServer} (h : s.Sound) {storage : SharedSessionStorage}
    {a : LaneAction} {t : LaneTask} (ht : s.Starts storage a t) :
    ∃ es, ChainTo s.log t.head es := by
  cases ht with
  | spawn => exact ⟨[], .root⟩
  | fork => exact ⟨[], .root⟩
  | resume _ hr =>
    obtain ⟨es, hes, -⟩ := resolveResumeHead_ok h.grown hr
    exact ⟨es, hes⟩

/-- What is left of the storage by a step that writes nothing. -/
structure Reads (s : LaneServer) (storage : SharedSessionStorage) : Prop where
  sessionId : storage.sessionId = s.storage.sessionId
  records : storage.records = s.storage.records
  below : ∀ e ∈ s.log, e.id < storage.nextId
  cursor : storage.nextId ≤ maxNodeId
  committed : storage.headStore = s.storage.headStore ∧
      storage.headCommitted = s.storage.headCommitted ∨
    s.session = false ∧ storage.headCommitted = []

theorem Sound.reads {s : LaneServer} (h : s.Sound) : s.Reads s.storage :=
  ⟨rfl, rfl, h.below, h.cursor, Or.inl ⟨rfl, rfl⟩⟩

theorem insertSession_ok {s s' : LaneServer} {storage : SharedSessionStorage}
    (hs : s.insertSession storage = .ok s') :
    s.session = false ∧ s' = { s with storage := storage, session := true } := by
  unfold insertSession at hs
  split_ifs at hs with hsession
  cases hs
  exact ⟨by simpa using hsession, rfl⟩

/-- What a call other than an append does: it clears the process, or it opens the session,
starts tasks, and writes nothing. -/
inductive CallStep (s : LaneServer) (a : LaneAction) : LaneServer → Prop
  | restarted : CallStep s a s.restart
  | read {storage : SharedSessionStorage} {session : Bool} {tasks : List LaneTask} :
      s.Reads storage → (∀ t ∈ tasks, s.Starts storage a t) →
      CallStep s a { s with storage := storage, session := session, tasks := s.tasks ++ tasks }

theorem CallStep.of_read {s s' : LaneServer} {a : LaneAction} {storage : SharedSessionStorage}
    (session : Bool) (tasks : List LaneTask) (hreads : s.Reads storage)
    (htasks : ∀ t ∈ tasks, s.Starts storage a t)
    (hs : s' = { s with storage := storage, session := session, tasks := s.tasks ++ tasks }) :
    s.CallStep a s' := by
  rw [hs]
  exact .read hreads htasks

theorem CallStep.records {s s' : LaneServer} {a : LaneAction} (h : s.CallStep a s') :
    s'.storage.records = s.storage.records := by
  cases h with
  | restarted => rfl
  | read hreads _ => exact hreads.records

/-- A call that fails leaves everything as it was. -/
theorem Sound.call_same {s s' : LaneServer} (h : s.Sound) (a : LaneAction) (hs : s' = s) :
    s.CallStep a s' := by
  have hnone : ∀ t ∈ ([] : List LaneTask), s.Starts s.storage a t := by simp
  refine .of_read s.session [] h.reads hnone ?_
  rw [hs, List.append_nil]

theorem Sound.reads_opened {s : LaneServer} {next : NodeId} (hsession : s.session = false)
    (hle : next ≤ maxNodeId) (hlt : ∀ e ∈ s.log, e.id < next) (headStore : Bool) :
    s.Reads ⟨s.storage.sessionId, s.storage.records, next, headStore, []⟩ :=
  ⟨rfl, rfl, hlt, hle, Or.inr ⟨hsession, rfl⟩⟩

theorem Sound.call_spawnLane {s : LaneServer} (h : s.Sound) (laneId : LaneId) :
    s.CallStep (.spawnLane laneId) (s.step (.spawnLane laneId)) := by
  cases hc : s.checkLane laneId with
  | error e => exact h.call_same _ (by simp [step, spawnLane, hc, Except.map, Except.toOption])
  | ok u =>
    apply CallStep.of_read s.session [.spawned laneId none [] true none] h.reads
    · intro t ht
      obtain rfl := List.mem_singleton.mp ht
      exact .spawn laneId
    · simp only [step, spawnLane, hc, Except.map, Except.toOption, Option.getD_some]
      rfl

theorem Sound.call_forkLane {s : LaneServer} (h : s.Sound) (fromLane newLane : LaneId) :
    s.CallStep (.forkLane fromLane newLane) (s.step (.forkLane fromLane newLane)) := by
  cases hc : s.checkLane newLane with
  | error e => exact h.call_same _ (by simp [step, forkLane, hc, Except.toOption])
  | ok u =>
    cases hl : s.lanes.lookup fromLane with
    | none => exact h.call_same _ (by simp [step, forkLane, hc, hl, Except.toOption])
    | some source =>
      apply CallStep.of_read s.session [.forking fromLane newLane source] h.reads
      · intro t ht
        obtain rfl := List.mem_singleton.mp ht
        exact .fork fromLane newLane source hl
      · simp only [step, forkLane, hc, hl, Except.toOption, Option.getD_some]
        rfl

theorem Sound.call_createSession {s : LaneServer} (h : s.Sound) (headStore : Bool) :
    s.CallStep (.createSession headStore) (s.step (.createSession headStore)) := by
  obtain ⟨next, hopen, hle, hlt⟩ := h.openStorage headStore
  cases hi : s.insertSession ⟨s.storage.sessionId, s.storage.records, next, headStore, []⟩ with
  | error e => exact h.call_same _ (by simp [step, createSession, hopen, hi, Except.toOption])
  | ok s' =>
    obtain ⟨hsession, rfl⟩ := insertSession_ok hi
    refine .of_read true [] (reads_opened hsession hle hlt headStore)
      (by simp) ?_
    simp only [step, createSession, hopen, hi, Except.toOption, Option.getD_some, List.append_nil]

theorem Sound.call_loadSession {s : LaneServer} (h : s.Sound) (headStore : Bool) :
    s.CallStep (.loadSession headStore) (s.step (.loadSession headStore)) := by
  obtain ⟨next, hopen, hle, hlt⟩ := h.openStorage headStore
  obtain ⟨root, next', -, hload, hnext⟩ :=
    loadRecords_grown h.grown h.ids_lt s.storage.sessionId next
  have hle' : next' ≤ maxNodeId :=
    (loadRecords_ok hload).2 (fun e he => Nat.le_of_lt (h.ids_lt e he)) hle
  have hlt' : ∀ e ∈ s.log, e.id < next' := fun e he => Nat.lt_of_lt_of_le (hlt e he) hnext
  have hstorage : SharedSessionStorage.load
      ⟨s.storage.sessionId, s.storage.records, next, headStore, []⟩ =
        .ok (treeOf s.log s.storage.sessionId root,
          ⟨s.storage.sessionId, s.storage.records, next', headStore, []⟩) := by
    rw [SharedSessionStorage.load, hload]
    rfl
  cases hi : s.insertSession ⟨s.storage.sessionId, s.storage.records, next', headStore, []⟩ with
  | error e =>
    exact h.call_same _ (by simp [step, loadSession, hopen, hstorage, hi, Except.toOption])
  | ok s' =>
    obtain ⟨hsession, rfl⟩ := insertSession_ok hi
    refine .of_read true [] (reads_opened hsession hle' hlt' headStore)
      (by simp) ?_
    simp only [step, loadSession, hopen, hstorage, hi, Except.toOption, Option.getD_some,
      List.append_nil]

theorem Sound.call_loadAndResume {s : LaneServer} (h : s.Sound) (headStore : Bool)
    (laneId : LaneId) (head : Option NodeId) :
    s.CallStep (.loadAndResume headStore laneId head)
      (s.step (.loadAndResume headStore laneId head)) := by
  obtain ⟨next, hopen, hle, hlt⟩ := h.openStorage headStore
  obtain ⟨root, next', hsnap, hnext, hle'⟩ := h.snapshot
    ⟨s.storage.sessionId, s.storage.records, next, headStore, []⟩ rfl
  have hlt' : ∀ e ∈ s.log, e.id < next' := fun e he => Nat.lt_of_lt_of_le (hlt e he) hnext
  cases hr : resolveResumeHead (treeOf s.log s.storage.sessionId root) head
      (SharedSessionStorage.loadLaneHeads
        ⟨s.storage.sessionId, s.storage.records, next, headStore, []⟩ laneId) with
  | error e =>
    exact h.call_same _ (by simp [step, loadAndResume, hopen, hsnap, hr, Except.toOption])
  | ok r =>
    obtain ⟨head', transcript⟩ := r
    cases hi : s.insertSession ⟨s.storage.sessionId, s.storage.records, next', headStore, []⟩ with
    | error e =>
      exact h.call_same _
        (by simp [step, loadAndResume, hopen, hsnap, hr, hi, Except.map, Except.toOption])
    | ok s' =>
      obtain ⟨hsession, rfl⟩ := insertSession_ok hi
      apply CallStep.of_read true [.resumed laneId head' transcript]
        (reads_opened hsession (hle' hle) hlt' headStore)
      · intro t ht
        obtain rfl := List.mem_singleton.mp ht
        exact .resume (Or.inr ⟨headStore, rfl⟩) hr
      · simp only [step, loadAndResume, hopen, hsnap, hr, hi, Except.map, Except.toOption,
          Option.getD_some]
        rfl

theorem Sound.call_resumeLane {s : LaneServer} (h : s.Sound) (laneId : LaneId)
    (head : Option NodeId) :
    s.CallStep (.resumeLane laneId head) (s.step (.resumeLane laneId head)) := by
  cases hsession : s.session with
  | false => exact h.call_same _ (by simp [step, resumeLane, hsession, Except.toOption])
  | true =>
    obtain ⟨root, next, hsnap, hnext, hle⟩ := h.snapshot s.storage rfl
    have hreads : s.Reads { s.storage with nextId := next } :=
      ⟨rfl, rfl, fun e he => Nat.lt_of_lt_of_le (h.below e he) hnext, hle h.cursor,
        Or.inl ⟨rfl, rfl⟩⟩
    cases hr : resolveResumeHead (treeOf s.log s.storage.sessionId root) head
        (s.storage.loadLaneHeads laneId) with
    | error e =>
      exact h.call_same _ (by simp [step, resumeLane, hsession, hsnap, hr, Except.toOption])
    | ok r =>
      obtain ⟨head', transcript⟩ := r
      apply CallStep.of_read true [.resumed laneId head' transcript] hreads
      · intro t ht
        obtain rfl := List.mem_singleton.mp ht
        exact .resume (Or.inl rfl) hr
      · simp [step, resumeLane, hsession, hsnap, hr, Except.toOption]
        rfl

theorem Sound.step_call {s s' : LaneServer} (h : s.Sound) {a : LaneAction}
    (hcall : s.CallStep a s') : s'.Sound := by
  cases hcall with
  | restarted => exact h.restart
  | @read storage session tasks hreads htasks =>
    have hlog : entriesOf storage.records = s.log := by rw [hreads.records]; rfl
    have hnew := h.setStorage _ hlog hreads.below hreads.cursor
    refine ⟨hnew.grown, hnew.below, hnew.cursor, hnew.runtimes, fun t ht => ?_⟩
    rcases List.mem_append.mp ht with hold | hnewt
    · exact hnew.tasks t hold
    · change ∃ es, ChainTo (entriesOf storage.records) t.head es
      rw [hlog]
      exact (htasks t hnewt).placed h

/-- What the next step of a task does. -/
inductive AdvanceStep (s : LaneServer) (task : ℕ) (fails : Bool) : LaneServer → Prop
  | idle : s.tasks[task]? = none → AdvanceStep s task fails s
  | dropped {t : LaneTask} : s.tasks[task]? = some t →
      AdvanceStep s task fails { s with tasks := s.tasks.eraseIdx task }
  | checked {laneId : LaneId} {head : Option NodeId} {transcript : List Message} :
      s.tasks[task]? = some (.resumed laneId head transcript) →
      AdvanceStep s task fails
        { s with tasks := s.tasks.set task (.spawned laneId head transcript false none) }
  | forked {fromLane newLane : LaneId} {source : ℕ} {r : LaneRuntime} :
      s.tasks[task]? = some (.forking fromLane newLane source) →
      s.runtimes[source]? = some r →
      AdvanceStep s task fails
        { s with
          tasks := s.tasks.set task (.spawned newLane r.writer.head [] true (some fromLane)) }
  | inserted {laneId : LaneId} {head : Option NodeId} {transcript : List Message}
      {persistInitial : Bool} {fromLane : Option LaneId} :
      s.tasks[task]? = some (.spawned laneId head transcript persistInitial fromLane) →
      s.contains laneId = false →
      AdvanceStep s task fails
        { s with
          lanes := (laneId, s.runtimes.length) :: s.lanes
          runtimes := s.runtimes ++ [⟨⟨laneId, head⟩, transcript, []⟩]
          tasks := if persistInitial then
            s.tasks.set task (.registered laneId head s.runtimes.length)
            else s.tasks.eraseIdx task }
  | rolledBack {laneId : LaneId} {head : Option NodeId} {generation : ℕ} :
      s.tasks[task]? = some (.registered laneId head generation) → fails = true →
      AdvanceStep s task fails
        (({ s with tasks := s.tasks.eraseIdx task } : LaneServer).removeLaneIfGeneration
          laneId generation)
  | persisted {laneId : LaneId} {head : Option NodeId} {generation : ℕ} :
      s.tasks[task]? = some (.registered laneId head generation) →
      laneId ∉ s.storage.headCommitted → s.storage.headStore = true → fails = false →
      AdvanceStep s task fails
        { s with
          storage := s.storage.commitHead laneId head
          tasks := s.tasks.eraseIdx task }
  | unbound {laneId : LaneId} {head : Option NodeId} {generation : ℕ} :
      s.tasks[task]? = some (.registered laneId head generation) →
      s.storage.headStore = false →
      AdvanceStep s task fails
        { s with
          storage := { s.storage with headCommitted := laneId :: s.storage.headCommitted }
          tasks := s.tasks.eraseIdx task }

theorem checkInsert_ok {s : LaneServer} {laneId : LaneId} {fromLane : Option LaneId}
    (h : s.checkInsert laneId fromLane = .ok ()) : s.contains laneId = false := by
  unfold checkInsert checkLane at h
  by_contra hcontains
  rw [Bool.not_eq_false] at hcontains
  rw [hcontains] at h
  cases hsession : s.session with
  | false =>
    rw [hsession] at h
    cases h
  | true =>
    rw [hsession] at h
    cases h

theorem advance_step (s : LaneServer) (task : ℕ) (fails : Bool) :
    s.AdvanceStep task fails (s.advance task fails) := by
  unfold LaneServer.advance
  cases ht : s.tasks[task]? with
  | none => exact .idle ht
  | some t =>
    cases t with
    | resumed laneId head transcript =>
      cases hc : s.checkLane laneId with
      | error e => simpa only [hc] using .dropped ht
      | ok u => simpa only [hc] using .checked ht
    | forking fromLane newLane source =>
      cases hr : s.runtimes[source]? with
      | none => simpa only [hr] using .dropped ht
      | some r => simpa only [hr] using .forked ht hr
    | spawned laneId head transcript persistInitial fromLane =>
      cases hc : s.checkInsert laneId fromLane with
      | error e => simpa only [hc] using .dropped ht
      | ok u => simpa only [hc] using .inserted ht (checkInsert_ok hc)
    | registered laneId head generation =>
      rcases s.storage.persistInitialHead_cases laneId head fails with
        ⟨-, hp⟩ | ⟨-, -, hfails, hp⟩ | ⟨hnew, hstore, hfails, hp⟩ | ⟨-, hstore, hp⟩
      · simpa only [hp] using .dropped ht
      · simpa only [hp] using .rolledBack ht hfails
      · simpa only [hp] using .persisted ht hnew hstore hfails
      · simpa only [hp] using .unbound ht hstore

theorem Sound.advance {s s' : LaneServer} (h : s.Sound) {task : ℕ} {fails : Bool}
    (hs : s.AdvanceStep task fails s') : s'.Sound := by
  cases hs with
  | idle => exact h
  | dropped => exact h.eraseTask task
  | @checked laneId head transcript ht =>
    have hplaced := h.tasks _ (List.mem_of_getElem? ht)
    exact h.setTask (t := .spawned laneId head transcript false none) task hplaced
  | @forked fromLane newLane source r ht hr =>
    obtain ⟨es, hes, -⟩ := h.runtimes r (List.mem_of_getElem? hr)
    exact h.setTask (t := .spawned newLane r.writer.head [] true (some fromLane)) task ⟨es, hes⟩
  | @inserted laneId head transcript persistInitial fromLane ht =>
    obtain ⟨es, hes⟩ := h.tasks _ (List.mem_of_getElem? ht)
    have htasks : Sound { s with
        tasks := if persistInitial then
          s.tasks.set task (.registered laneId head s.runtimes.length)
          else s.tasks.eraseIdx task } := by
      split_ifs
      · exact h.setTask task ⟨es, hes⟩
      · exact h.eraseTask task
    refine ⟨h.grown, h.below, h.cursor, fun r hr => ?_, htasks.tasks⟩
    rw [List.mem_append, List.mem_singleton] at hr
    rcases hr with hr | rfl
    · exact h.runtimes r hr
    · exact ⟨es, hes, List.nil_sublist _⟩
  | rolledBack =>
    have hdone := h.eraseTask task
    exact ⟨hdone.grown, hdone.below, hdone.cursor, hdone.runtimes, hdone.tasks⟩
  | @persisted laneId head generation ht =>
    have hlog : entriesOf (s.storage.commitHead laneId head).records = s.log :=
      SharedSessionStorage.entriesOf_commitHead _ _ _
    exact (h.setStorage _ hlog h.below h.cursor).eraseTask task
  | @unbound laneId head generation ht =>
    exact (h.setStorage
      { s.storage with headCommitted := laneId :: s.storage.headCommitted } rfl h.below
        h.cursor).eraseTask task

/-- A new node under the head of a writer keeps the log grown. -/
theorem Sound.grown_entry {s : LaneServer} (h : s.Sound) {r : LaneRuntime} (hr : r ∈ s.runtimes)
    (hroot : r.writer.head = none → s.log = []) (message : Message) :
    GrownLog (s.log ++ [r.writer.entry s.storage message]) := by
  obtain ⟨es, hes, -⟩ := h.runtimes r hr
  refine .snoc h.grown ?_ hroot ?_
  · intro hmem
    obtain ⟨e, he, hid⟩ := List.mem_map.mp hmem
    exact Nat.ne_of_lt (h.below e he) hid
  · intro p hp
    have hhead : r.writer.head = some p := hp
    rw [hhead] at hes
    exact hes.mem_ids

/-- The session behind an append that wrote its message. -/
theorem Sound.addEntry {s s' : LaneServer} (h : s.Sound) {lane : ℕ} {r r' : LaneRuntime}
    {message : Message} (hr : s.runtimes[lane]? = some r)
    (hroot : r.writer.head = none → s.log = []) (hmax : s.storage.nextId ≠ maxNodeId)
    (hlog : s'.log = s.log ++ [r.writer.entry s.storage message])
    (hnext : s'.storage.nextId = s.storage.nextId + 1)
    (hruntimes : s'.runtimes = s.runtimes.set lane r') (htasks : s'.tasks = s.tasks)
    (hkept : r'.Kept s'.log) : s'.Sound := by
  refine ⟨?_, ?_, ?_, ?_, ?_⟩
  · rw [hlog]
    exact h.grown_entry (List.mem_of_getElem? hr) hroot message
  · rw [hlog, hnext]
    intro e he
    rw [List.mem_append, List.mem_singleton] at he
    rcases he with he | rfl
    · exact Nat.lt_succ_of_lt (h.below e he)
    · exact Nat.lt_succ_self _
  · rw [hnext]
    exact Nat.lt_of_le_of_ne h.cursor hmax
  · intro q hq
    rw [hruntimes] at hq
    rcases List.mem_or_eq_of_mem_set hq with hold | rfl
    · rw [hlog]
      exact (h.runtimes q hold).append_right _
    · exact hkept
  · intro t ht
    rw [htasks] at ht
    obtain ⟨es, hes⟩ := h.tasks t ht
    exact ⟨es, hlog ▸ hes.append_right _⟩

theorem Sound.append {s : LaneServer} (h : s.Sound) {lane : ℕ} {message : Message}
    {fault : WriteFault} (hroot : s.RootsOnce (.append lane message fault)) :
    (s.append lane message fault).Sound := by
  unfold LaneServer.append
  cases hr : s.runtimes[lane]? with
  | none => exact h
  | some r =>
    have hkept := h.runtimes r (List.mem_of_getElem? hr)
    rcases r.writer.append_cases s.storage message fault with
      ⟨e, next, hw, hle, hmaxle, -⟩ | ⟨hmax, hstore, hfault, hw⟩ | ⟨hmax, hwritten, -, hw⟩
    · simp only [hw, Except.toOption, Option.map_none, Option.toList_none, List.append_nil]
      have hnew := h.setStorage { s.storage with nextId := next } rfl
        (fun e he => Nat.lt_of_lt_of_le (h.below e he) hle) (hmaxle h.cursor)
      refine ⟨hnew.grown, hnew.below, hnew.cursor, fun q hq => ?_, hnew.tasks⟩
      rcases List.mem_or_eq_of_mem_set hq with hold | rfl
      · exact hnew.runtimes q hold
      · exact hkept
    · -- the message stays behind without its head, and the writer stays where it was
      have hwrites : s.Writes fault := ⟨by simp [hfault], hmax⟩
      simp only [hw, Except.toOption, Option.map_none, Option.toList_none, List.append_nil]
      have hlog : entriesOf (s.storage.records ++ [.message (r.writer.entry s.storage message)]) =
          s.log ++ [r.writer.entry s.storage message] := entriesOf_append _ _
      refine h.addEntry hr (hroot hwrites r hr) hmax hlog rfl rfl rfl ?_
      have := hkept.append_right [r.writer.entry s.storage message]
      rw [← hlog] at this
      exact this
    · simp only [hw, Except.toOption, Option.map_some, Option.toList_some]
      have hlog : entriesOf (s.storage.records ++ .message (r.writer.entry s.storage message) ::
          (if s.storage.headStore then [.laneHead ⟨r.writer.laneId, some s.storage.nextId⟩]
            else [])) = s.log ++ [r.writer.entry s.storage message] := by
        rw [entriesOf_append]
        split_ifs <;> rfl
      refine h.addEntry hr (hroot ⟨hwritten, hmax⟩ r hr) hmax hlog rfl rfl rfl ?_
      have := hkept.snoc (e := r.writer.entry s.storage message) rfl
      rw [← hlog] at this
      exact this

/-- Every action is an append, the next step of a task, or a call that writes nothing. -/
theorem Sound.step_cases {s : LaneServer} (h : s.Sound) (a : LaneAction) :
    (∃ lane message fault, a = .append lane message fault) ∨
      (∃ task fails, a = .advance task fails) ∨ s.CallStep a (s.step a) := by
  cases a with
  | append lane message fault => exact Or.inl ⟨lane, message, fault, rfl⟩
  | advance task fails => exact Or.inr (Or.inl ⟨task, fails, rfl⟩)
  | restart => exact Or.inr (Or.inr .restarted)
  | createSession headStore => exact Or.inr (Or.inr (h.call_createSession headStore))
  | loadSession headStore => exact Or.inr (Or.inr (h.call_loadSession headStore))
  | loadAndResume headStore laneId head =>
    exact Or.inr (Or.inr (h.call_loadAndResume headStore laneId head))
  | resumeLane laneId head => exact Or.inr (Or.inr (h.call_resumeLane laneId head))
  | spawnLane laneId => exact Or.inr (Or.inr (h.call_spawnLane laneId))
  | forkLane fromLane newLane => exact Or.inr (Or.inr (h.call_forkLane fromLane newLane))

/-- Over lines that are read back as they were written, a call sees the records. -/
theorem Sound.callOver_eq {s : LaneServer} (h : s.Sound)
    (hlegible : ∀ r ∈ s.storage.records, r.Legible) (a : LaneAction) :
    s.callOver (logBytes s.storage.records) a = s.step a := by
  unfold callOver
  rw [readRecords_logBytes hlegible]
  split_ifs with hreads
  · have hrecords : (s.step a).storage.records = s.storage.records := by
      rcases h.step_cases a with ⟨lane, message, fault, rfl⟩ | ⟨task, fails, rfl⟩ | hcall
      · cases hreads
      · cases hreads
      · exact hcall.records
    have hsame : (s.step a).withRecords (s.step a).storage.records = s.step a := rfl
    rw [hrecords] at hsame
    exact hsame
  · rfl

theorem Sound.step {s : LaneServer} (h : s.Sound) {a : LaneAction} (ha : s.RootsOnce a) :
    (s.step a).Sound := by
  rcases h.step_cases a with ⟨lane, message, fault, rfl⟩ | ⟨task, fails, rfl⟩ | hcall
  · exact h.append ha
  · exact h.advance (s.advance_step task fails)
  · exact h.step_call hcall

end LaneServer

end Guigu
