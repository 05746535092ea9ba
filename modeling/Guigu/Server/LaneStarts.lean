import Guigu.Server.LaneAgents

/-! How the lanes of a server start, and where they resume. -/
namespace Guigu

/-- The messages lie on the way to the head. -/
def PathOf (log : List SessionEntry) (head : Option NodeId) (path : List Message) : Prop :=
  ∃ es, ChainTo log head es ∧ path = es.map (·.message)

namespace PathOf

variable {log : List SessionEntry} {head : Option NodeId} {path : List Message}

theorem append_right (h : PathOf log head path) (more : List SessionEntry) :
    PathOf (log ++ more) head path := by
  obtain ⟨es, hes, hpath⟩ := h
  exact ⟨es, hes.append_right more, hpath⟩

theorem snoc {e : SessionEntry} (h : PathOf log e.parentId path) :
    PathOf (log ++ [e]) (some e.id) (path ++ [e.message]) := by
  obtain ⟨es, hes, rfl⟩ := h
  refine ⟨es ++ [e], hes.snoc, ?_⟩
  rw [List.map_append]
  rfl

end PathOf

theorem map_set_of_eq {α β : Type*} {f : α → β} {l : List α} {i : ℕ} {a b : α}
    (h : l[i]? = some a) (hf : f b = f a) : (l.set i b).map f = l.map f := by
  obtain ⟨hi, rfl⟩ := List.getElem?_eq_some_iff.mp h
  have hi' : i < (l.map f).length := by simpa using hi
  have hself : (l.map f)[i] = f l[i] := List.getElem_map f
  rw [List.map_set, hf, ← hself, List.set_getElem_self]

namespace LaneServer

variable {s s' : LaneServer}

/-- A call fails, or leaves a session behind, of which no head is committed when it is new. -/
def Serves (s s' : LaneServer) : Prop :=
  s' = s ∨ s'.session = true ∧ (s.session = true ∨ s'.storage.headCommitted = [])

theorem Serves.of_ok {x : Except ServerError LaneServer}
    (h : ∀ s', x = .ok s' → s'.session = true ∧
      (s.session = true ∨ s'.storage.headCommitted = [])) : s.Serves (x.toOption.getD s) := by
  cases x with
  | error e => exact .inl rfl
  | ok s' => exact .inr (h s' rfl)

theorem openStorage_uncommitted {headStore : Bool} {storage : SharedSessionStorage}
    (h : s.openStorage headStore = .ok storage) : storage.headCommitted = [] := by
  unfold openStorage SharedSessionStorage.reopen at h
  cases hcursor : cursorAfter s.storage.records with
  | error e =>
    rw [hcursor] at h
    cases h
  | ok next =>
    rw [hcursor] at h
    cases h
    rfl

theorem load_committed {storage storage' : SharedSessionStorage} {tree : SessionTree}
    (h : storage.load = .ok (tree, storage')) : storage'.headCommitted = storage.headCommitted := by
  unfold SharedSessionStorage.load at h
  cases hload : loadRecords storage.records storage.sessionId storage.nextId with
  | error e =>
    rw [hload] at h
    cases h
  | ok r =>
    rw [hload] at h
    cases h
    rfl

theorem snapshot_committed {storage storage' : SharedSessionStorage}
    {view : SessionTree × (LaneId → Option (Option NodeId))}
    (h : storage.snapshot = .ok (view, storage')) :
    storage'.headCommitted = storage.headCommitted := by
  unfold SharedSessionStorage.snapshot at h
  cases hload : storage.load with
  | error e =>
    rw [hload] at h
    cases h
  | ok r =>
    rw [hload] at h
    cases h
    exact load_committed hload

theorem checkLane_session {laneId : LaneId} {u : Unit} (h : s.checkLane laneId = .ok u) :
    s.session = true := by
  unfold checkLane at h
  by_contra hsession
  rw [Bool.not_eq_true] at hsession
  rw [if_pos hsession] at h
  cases h

theorem insertSession_opens {storage : SharedSessionStorage}
    (hs : s.insertSession storage = .ok s') (hnew : storage.headCommitted = []) :
    s'.session = true ∧ (s.session = true ∨ s'.storage.headCommitted = []) := by
  obtain ⟨-, rfl⟩ := insertSession_ok hs
  exact ⟨rfl, .inr hnew⟩

/-- What the calls of clients do to the session. -/
theorem step_serves (s : LaneServer) (a : LaneAction) :
    a = .restart ∨ (∃ task fails, a = .advance task fails) ∨
      (∃ lane message fault, a = .append lane message fault) ∨ s.Serves (s.step a) := by
  cases a with
  | restart => exact .inl rfl
  | advance task fails => exact .inr (.inl ⟨task, fails, rfl⟩)
  | append lane message fault => exact .inr (.inr (.inl ⟨lane, message, fault, rfl⟩))
  | createSession headStore =>
    refine .inr (.inr (.inr (Serves.of_ok ?_)))
    intro s' hs
    unfold createSession at hs
    split at hs
    · cases hs
    · rename_i hopen
      exact insertSession_opens hs (openStorage_uncommitted hopen)
  | loadSession headStore =>
    refine .inr (.inr (.inr (Serves.of_ok ?_)))
    intro s' hs
    unfold loadSession at hs
    split at hs
    · cases hs
    · rename_i hopen
      split at hs
      · cases hs
      · rename_i hload
        exact insertSession_opens hs
          ((load_committed hload).trans (openStorage_uncommitted hopen))
  | loadAndResume headStore laneId head =>
    refine .inr (.inr (.inr (Serves.of_ok ?_)))
    intro s' hs
    unfold loadAndResume at hs
    split at hs
    · cases hs
    · rename_i hopen
      split at hs
      · cases hs
      · rename_i tree heads storage' hsnap
        split at hs
        · cases hs
        · cases hi : s.insertSession storage' with
          | error e =>
            rw [hi] at hs
            cases hs
          | ok opened =>
            rw [hi] at hs
            cases hs
            have hopened := insertSession_opens hi
              ((snapshot_committed hsnap).trans (openStorage_uncommitted hopen))
            exact hopened
  | resumeLane laneId head =>
    refine .inr (.inr (.inr (Serves.of_ok ?_)))
    intro s' hs
    unfold resumeLane at hs
    split_ifs at hs with hsession
    have hthere : s.session = true := Bool.not_eq_false _ ▸ hsession
    split at hs
    · cases hs
    · split at hs
      · cases hs
      · cases hs
        exact ⟨hthere, .inl hthere⟩
  | spawnLane laneId =>
    refine .inr (.inr (.inr (Serves.of_ok ?_)))
    intro s' hs
    unfold spawnLane at hs
    cases hc : s.checkLane laneId with
    | error e =>
      rw [hc] at hs
      cases hs
    | ok u =>
      rw [hc] at hs
      cases hs
      exact ⟨checkLane_session hc, .inl (checkLane_session hc)⟩
  | forkLane fromLane newLane =>
    refine .inr (.inr (.inr (Serves.of_ok ?_)))
    intro s' hs
    unfold forkLane at hs
    split at hs
    · cases hs
    · rename_i hc
      split at hs
      · cases hs
      · cases hs
        exact ⟨checkLane_session hc, .inl (checkLane_session hc)⟩

/-- The lane resumes at its head; or its first head is still to be put on record. -/
def Placed (s : LaneServer) (lane : ℕ) (r : LaneRuntime) : Prop :=
  (s.Registering lane ∧ r.writer.laneId ∉ s.storage.headCommitted) ∨
    (s.AtRecord r.writer.laneId r.writer.head ∧ ∀ i ∈ r.writer.head, LeafOf s.log i)

/-- The lane is there, and without a node as long as none of its heads is committed. -/
def FirstHead (s : LaneServer) (laneId : LaneId) (generation : ℕ) : Prop :=
  ∃ r, s.runtimes[generation]? = some r ∧ r.writer.laneId = laneId ∧
    (laneId ∉ s.storage.headCommitted → r.writer.head = none)

/-- A lane under creation is about to start with the path of its head; what a new lane has to put on
record is no node. -/
def Prepares (s : LaneServer) : LaneTask → Prop
  | .resumed _ head transcript => PathOf s.log head transcript
  | .forking _ _ _ => True
  | .spawned _ head transcript persistInitial _ =>
    if persistInitial then transcript = [] else PathOf s.log head transcript
  | .registered laneId head generation => head = none ∧ s.FirstHead laneId generation

/-- Each lane has its entry in the registry, and no two lanes have the same identifier; without a
session there is nothing. -/
structure Listed (s : LaneServer) : Prop where
  idle : s.session = false → s.runtimes = [] ∧ s.tasks = []
  lanes : s.lanes.map Prod.fst = (s.runtimes.map (·.writer.laneId)).reverse
  nodup : (s.runtimes.map (·.writer.laneId)).Nodup

theorem Listed.eq_of_laneId (h : s.Listed) {i j : ℕ} {r q : LaneRuntime}
    (hr : s.runtimes[i]? = some r) (hq : s.runtimes[j]? = some q)
    (hid : r.writer.laneId = q.writer.laneId) : i = j := by
  obtain ⟨hi, rfl⟩ := List.getElem?_eq_some_iff.mp hr
  obtain ⟨hj, rfl⟩ := List.getElem?_eq_some_iff.mp hq
  have hi' : i < (s.runtimes.map (·.writer.laneId)).length := by simpa using hi
  have hj' : j < (s.runtimes.map (·.writer.laneId)).length := by simpa using hj
  have hsame : (s.runtimes.map (·.writer.laneId))[i] = (s.runtimes.map (·.writer.laneId))[j] := by
    simpa using hid
  exact h.nodup.getElem_inj_iff.mp hsame

theorem Listed.not_contains (h : s.Listed) {laneId : LaneId} (hnew : s.contains laneId = false) :
    laneId ∉ s.runtimes.map (·.writer.laneId) := by
  intro hmem
  rw [← List.mem_reverse, ← h.lanes] at hmem
  obtain ⟨l, hl, rfl⟩ := List.mem_map.mp hmem
  have hno := List.any_eq_false.mp hnew l hl
  simp at hno

/-- The first head of another lane is still to come when a task has done its step. -/
theorem Registering.kept {lane task : ℕ} {t : LaneTask} (h : s.Registering lane)
    (ht : s.tasks[task]? = some t) (hother : t.generation? ≠ some lane) :
    ∃ i t', i ≠ task ∧ s.tasks[i]? = some t' ∧ t'.generation? = some lane := by
  obtain ⟨t', hmem, hgen⟩ := h
  obtain ⟨i, hi⟩ := List.getElem?_of_mem hmem
  refine ⟨i, t', ?_, hi, hgen⟩
  rintro rfl
  rw [ht] at hi
  cases hi
  exact hother hgen

theorem Registering.eraseTask {lane task : ℕ} {t : LaneTask} (h : s.Registering lane)
    (ht : s.tasks[task]? = some t) (hother : t.generation? ≠ some lane) :
    ∃ t' ∈ s.tasks.eraseIdx task, t'.generation? = some lane := by
  obtain ⟨i, t', hne, hi, hgen⟩ := h.kept ht hother
  exact ⟨t', List.mem_eraseIdx_iff_getElem?.mpr ⟨i, hne, hi⟩, hgen⟩

theorem Registering.setTask {lane task : ℕ} {t : LaneTask} (h : s.Registering lane)
    (ht : s.tasks[task]? = some t) (hother : t.generation? ≠ some lane) (new : LaneTask) :
    ∃ t' ∈ s.tasks.set task new, t'.generation? = some lane := by
  obtain ⟨i, t', hne, hi, hgen⟩ := h.kept ht hother
  refine ⟨t', List.mem_of_getElem? (i := i) ?_, hgen⟩
  rw [List.getElem?_set_ne hne.symm]
  exact hi

/-- The server behind the insertion of a lane. -/
def register (s : LaneServer) (laneId : LaneId) (head : Option NodeId) (transcript : List Message)
    (tasks : List LaneTask) : LaneServer :=
  { s with
    lanes := (laneId, s.runtimes.length) :: s.lanes
    runtimes := s.runtimes ++ [⟨⟨laneId, head⟩, transcript, []⟩]
    tasks := tasks }

section Register

variable {laneId : LaneId} {head : Option NodeId} {transcript : List Message}
  {tasks : List LaneTask}

theorem register_ids : (s.register laneId head transcript tasks).runtimes.map (·.writer.laneId) =
    s.runtimes.map (·.writer.laneId) ++ [laneId] := List.map_append

theorem register_lane {lane : ℕ} {r : LaneRuntime}
    (hr : (s.register laneId head transcript tasks).runtimes[lane]? = some r) :
    s.runtimes[lane]? = some r ∨
      lane = s.runtimes.length ∧ r = ⟨⟨laneId, head⟩, transcript, []⟩ := by
  have hr' : (s.runtimes ++ [⟨⟨laneId, head⟩, transcript, []⟩])[lane]? = some r := hr
  rcases Nat.lt_trichotomy lane s.runtimes.length with hlt | heq | hgt
  · left
    rwa [List.getElem?_append_left hlt] at hr'
  · right
    rw [heq, List.getElem?_concat_length] at hr'
    exact ⟨heq, (Option.some.inj hr').symm⟩
  · have hlt := (List.getElem?_eq_some_iff.mp hr').1
    rw [List.length_append, List.length_singleton] at hlt
    omega

theorem FirstHead.register {laneId' : LaneId} {generation : ℕ}
    (h : s.FirstHead laneId' generation) :
    (s.register laneId head transcript tasks).FirstHead laneId' generation := by
  obtain ⟨r, hr, hid, hnone⟩ := h
  refine ⟨r, ?_, hid, hnone⟩
  show (s.runtimes ++ [_])[generation]? = some r
  rw [List.getElem?_append_left (List.getElem?_eq_some_iff.mp hr).1]
  exact hr

end Register

/-- What prepares a lane is not disturbed by others. -/
theorem Prepares.mono {t : LaneTask} (h : s.Prepares t) (more : List SessionEntry)
    (hlog : s'.log = s.log ++ more)
    (hfirst : ∀ laneId generation, s.FirstHead laneId generation →
      s'.FirstHead laneId generation) : s'.Prepares t := by
  cases t with
  | resumed laneId head transcript =>
    have hpath : PathOf s.log head transcript := h
    show PathOf s'.log head transcript
    rw [hlog]
    exact hpath.append_right more
  | forking => trivial
  | spawned laneId head transcript persistInitial fromLane =>
    cases persistInitial with
    | true => exact h
    | false =>
      have hpath : PathOf s.log head transcript := h
      show PathOf s'.log head transcript
      rw [hlog]
      exact hpath.append_right more
  | registered laneId head generation => exact ⟨h.1, hfirst laneId generation h.2⟩

theorem Prepares.mono_unregistered {t : LaneTask} (h : s.Prepares t) (ht : t.generation? = none)
    (more : List SessionEntry) (hlog : s'.log = s.log ++ more) : s'.Prepares t := by
  cases t with
  | registered laneId head generation => cases ht
  | _ => exact Prepares.mono (s := { s with runtimes := [] }) h more hlog nofun

/-- A call prepares a lane. -/
theorem Starts.prepares {storage : SharedSessionStorage} {a : LaneAction} {t : LaneTask}
    (h : s.Starts storage a t) (hs : s.Sound) : s.Prepares t ∧ t.generation? = none := by
  cases h with
  | spawn => exact ⟨rfl, rfl⟩
  | fork => exact ⟨trivial, rfl⟩
  | resume _ hr => exact ⟨resolveResumeHead_ok hs.grown hr, rfl⟩

theorem Placed.congr {lane : ℕ} {r : LaneRuntime} (h : s.Placed lane r)
    (hregistering : s.Registering lane → s'.Registering lane)
    (hcommitted : r.writer.laneId ∉ s.storage.headCommitted →
      r.writer.laneId ∉ s'.storage.headCommitted)
    (hrecord : s'.onRecord r.writer.laneId = s.onRecord r.writer.laneId)
    (hlog : s'.log = s.log) : s'.Placed lane r := by
  unfold Placed AtRecord at h ⊢
  rw [hrecord, hlog]
  exact h.imp (fun hfirst => ⟨hregistering hfirst.1, hcommitted hfirst.2⟩) id

/-- The server behind a message of a lane that is written. -/
def written (s : LaneServer) (lane : ℕ) (r : LaneRuntime) (message : Message)
    (storage : SharedSessionStorage) : LaneServer :=
  { s with
    storage := storage
    runtimes := s.runtimes.set lane
      ⟨⟨r.writer.laneId, some s.storage.nextId⟩, r.transcript, r.acked ++ [message]⟩ }

/-- The storage has the message on record, and behind it the new head of its lane. -/
structure Stored (s : LaneServer) (r : LaneRuntime) (message : Message)
    (storage : SharedSessionStorage) : Prop where
  records : ∀ q ∈ storage.records, q ∈ s.storage.records ∨
    q = .message (r.writer.entry s.storage message) ∨
    q = .laneHead ⟨r.writer.laneId, some s.storage.nextId⟩
  log : entriesOf storage.records = s.log ++ [r.writer.entry s.storage message]
  headStore : storage.headStore = s.storage.headStore
  committed : s.storage.headStore = true →
    storage.headCommitted = r.writer.laneId :: s.storage.headCommitted
  onRecord : s.storage.headStore = true → laneHeads storage.records =
    Function.update s.onRecord r.writer.laneId (some (some s.storage.nextId))

section Written

variable {lane : ℕ} {r : LaneRuntime} {message : Message} {storage : SharedSessionStorage}

theorem append_clean (s : LaneServer) (message : Message) (hr : s.runtimes[lane]? = some r)
    (hmax : s.storage.nextId ≠ maxNodeId) :
    ∃ storage, s.append lane message .clean = s.written lane r message storage ∧
      s.Stored r message storage := by
  unfold LaneServer.append
  rcases r.writer.append_cases s.storage message .clean with
    ⟨e, next, -, -, -, hfails⟩ | ⟨-, -, hfault, -⟩ | ⟨-, -, -, hw⟩
  · exact absurd hfails (by simp [hmax])
  · cases hfault
  · simp only [hr, hw]
    refine ⟨_, rfl, ⟨?_, ?_, rfl, fun hstore => if_pos hstore, fun hstore => ?_⟩⟩
    · intro q hq
      rcases List.mem_append.mp hq with hold | hnew
      · exact .inl hold
      · right
        split_ifs at hnew
        · simpa using hnew
        · exact .inl (by simpa using hnew)
    · rw [entriesOf_append]
      split_ifs <;> rfl
    · rw [if_pos hstore, List.append_cons, laneHeads_laneHead, laneHeads_message]
      rfl

theorem written_ids (hr : s.runtimes[lane]? = some r) :
    (s.written lane r message storage).runtimes.map (·.writer.laneId) =
      s.runtimes.map (·.writer.laneId) := map_set_of_eq hr rfl

/-- A lane behind the message is the one that wrote it, or as it was. -/
theorem written_lane {other : ℕ} {q : LaneRuntime}
    (hq : (s.written lane r message storage).runtimes[other]? = some q) :
    lane = other ∧
        q = ⟨⟨r.writer.laneId, some s.storage.nextId⟩, r.transcript, r.acked ++ [message]⟩ ∨
      lane ≠ other ∧ s.runtimes[other]? = some q := by
  have hq' : (s.runtimes.set lane _)[other]? = some q := hq
  by_cases hother : lane = other
  · subst hother
    have hlt := (List.getElem?_eq_some_iff.mp hq').1
    rw [List.length_set] at hlt
    rw [List.getElem?_set_self hlt] at hq'
    exact .inl ⟨rfl, (Option.some.inj hq').symm⟩
  · rw [List.getElem?_set_ne hother] at hq'
    exact .inr ⟨hother, hq'⟩

theorem FirstHead.written {laneId : LaneId} {generation : ℕ} (h : s.FirstHead laneId generation)
    (hr : s.runtimes[lane]? = some r)
    (hcommitted : storage.headCommitted = r.writer.laneId :: s.storage.headCommitted) :
    (s.written lane r message storage).FirstHead laneId generation := by
  obtain ⟨q, hq, hid, hnone⟩ := h
  by_cases hgeneration : lane = generation
  · subst hgeneration
    obtain rfl : r = q := Option.some.inj (hr.symm.trans hq)
    refine ⟨_, List.getElem?_set_self (List.getElem?_eq_some_iff.mp hr).1, hid, fun hno => ?_⟩
    have hmem : laneId ∈ storage.headCommitted := by
      rw [hcommitted, ← hid]
      exact List.mem_cons_self
    exact absurd hmem hno
  · refine ⟨q, (List.getElem?_set_ne hgeneration).trans hq, hid, fun hno => hnone fun hmem => ?_⟩
    have hmem' : laneId ∈ storage.headCommitted := by
      rw [hcommitted]
      exact List.mem_cons_of_mem _ hmem
    exact hno hmem'

/-- The lane that has written resumes at its new node. -/
theorem Stored.placed (h : s.Stored r message storage) (hstore : s.storage.headStore = true)
    (hgrown : GrownLog (s.log ++ [r.writer.entry s.storage message])) :
    (s.written lane r message storage).Placed lane
      ⟨⟨r.writer.laneId, some s.storage.nextId⟩, r.transcript, r.acked ++ [message]⟩ := by
  right
  refine ⟨.inl ?_, ?_⟩
  · show laneHeads storage.records r.writer.laneId = _
    rw [h.onRecord hstore, Function.update_self]
  · intro i hi
    obtain rfl := Option.some.inj hi
    show LeafOf (entriesOf storage.records) _
    rw [h.log]
    exact hgrown.leaf_last

/-- Another lane that does not depend on where the message went resumes where it did. -/
theorem Placed.written {other : ℕ} {q : LaneRuntime} (h : s.Placed other q)
    (hstored : s.Stored r message storage) (hstore : s.storage.headStore = true)
    (hne : q.writer.laneId ≠ r.writer.laneId)
    (hapart : r.writer.head ≠ none → q.writer.head ≠ r.writer.head)
    (hon : s.Registering other ∨ s.onRecord q.writer.laneId ≠ none)
    (hcommitted : q.writer.laneId ∈ s.storage.headCommitted →
      s.onRecord q.writer.laneId ≠ none) :
    (s.written lane r message storage).Placed other q := by
  have hon' : laneHeads storage.records q.writer.laneId = s.onRecord q.writer.laneId := by
    rw [hstored.onRecord hstore, Function.update_of_ne hne]
  have hno' : q.writer.laneId ∉ s.storage.headCommitted →
      q.writer.laneId ∉ storage.headCommitted := by
    intro hno hmem
    rw [hstored.committed hstore] at hmem
    rcases List.mem_cons.mp hmem with heq | hmem
    · exact hne heq
    · exact hno hmem
  rcases h with ⟨hregistering, hno⟩ | ⟨hrecorded | ⟨hnone, -⟩, hleaf⟩
  · exact .inl ⟨hregistering, hno' hno⟩
  · right
    refine ⟨.inl (hon'.trans hrecorded), fun i hi => ?_⟩
    show LeafOf (entriesOf storage.records) i
    rw [hstored.log]
    refine (hleaf i hi).snoc fun hparent => ?_
    have hhead : r.writer.head = some i := hparent
    have hsame : q.writer.head = some i := hi
    exact hapart (by rw [hhead]; simp) (hsame.trans hhead.symm)
  · left
    exact ⟨hon.resolve_right (not_not.mpr hnone), hno' fun hmem => hcommitted hmem hnone⟩

end Written

end LaneServer

end Guigu
