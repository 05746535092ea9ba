import Guigu.Server.LaneRuns

/-! Lanes with a head on record that resume at it. -/
namespace Guigu

open Runs

namespace LaneServer

/-- The head a lane has on record. -/
def onRecord (s : LaneServer) : LaneId → Option (Option NodeId) := laneHeads s.storage.records

/-- Every lane with a head on record resumes without naming one, in this process and in a
new one. -/
def HeadsResume (s : LaneServer) : Prop :=
  ∀ laneId head, s.onRecord laneId = some head →
    (∃ r, s.storage.resumed laneId = .ok r) ∧
      ∀ headStore, ∃ storage r, s.openStorage headStore = .ok storage ∧
        storage.resumed laneId = .ok r

/-- The lanes with a head on record. -/
def recordedLanes (s : LaneServer) : List LaneId :=
  (s.storage.records.filterMap SessionRecord.head?).map (·.laneId)

theorem onRecord_mem {s : LaneServer} {laneId : LaneId} {head : Option NodeId}
    (h : s.onRecord laneId = some head) : laneId ∈ s.recordedLanes := laneHeads_mem h

/-- A node that is the head on record of a lane gets a child only from that lane, together
with the new head. -/
def HeadMovesWith (s : LaneServer) (r : LaneRuntime) (fault : WriteFault) : Prop :=
  ∀ i ∈ r.writer.head, ∀ laneId ∈ s.recordedLanes, s.onRecord laneId = some (some i) →
    laneId = r.writer.laneId ∧ s.storage.headStore = true ∧ fault = .clean

/-- A first head that is put on record is still a leaf. -/
def PutsLeaf (s : LaneServer) (fails : Bool) : LaneTask → Prop
  | .registered laneId head _ =>
    laneId ∉ s.storage.headCommitted → s.storage.headStore = true → fails = false →
      ∀ i ∈ head, LeafOf s.log i
  | _ => True

/-- Roots come once, no head on record is built upon by another write, and the first head of
a lane is still a leaf when it is put on record. -/
def KeepsHeads (s : LaneServer) : LaneAction → Prop
  | .append lane _ fault => s.Writes fault →
    ∀ r ∈ s.runtimes[lane]?, (r.writer.head = none → s.log = []) ∧ s.HeadMovesWith r fault
  | .advance task fails => ∀ t ∈ s.tasks[task]?, s.PutsLeaf fails t
  | _ => True

instance (s : LaneServer) (r : LaneRuntime) (fault : WriteFault) :
    Decidable (s.HeadMovesWith r fault) :=
  inferInstanceAs (Decidable (∀ i ∈ r.writer.head, ∀ laneId ∈ s.recordedLanes,
    s.onRecord laneId = some (some i) →
      laneId = r.writer.laneId ∧ s.storage.headStore = true ∧ fault = .clean))

instance (s : LaneServer) (fails : Bool) : (t : LaneTask) → Decidable (s.PutsLeaf fails t)
  | .registered laneId head _ => inferInstanceAs (Decidable
    (laneId ∉ s.storage.headCommitted → s.storage.headStore = true → fails = false →
      ∀ i ∈ head, ∀ e ∈ s.log, e.parentId ≠ some i))
  | .resumed _ _ _ | .forking _ _ _ | .spawned _ _ _ _ _ => .isTrue trivial

instance (s : LaneServer) : (a : LaneAction) → Decidable (s.KeepsHeads a)
  | .append lane _ fault => inferInstanceAs (Decidable (s.Writes fault →
      ∀ r ∈ s.runtimes[lane]?, (r.writer.head = none → s.log = []) ∧ s.HeadMovesWith r fault))
  | .advance task fails => inferInstanceAs (Decidable (∀ t ∈ s.tasks[task]?, s.PutsLeaf fails t))
  | .restart | .createSession _ | .loadSession _ | .loadAndResume _ _ _ | .resumeLane _ _
  | .spawnLane _ | .forkLane _ _ => .isTrue trivial

theorem KeepsHeads.rootsOnce {s : LaneServer} {a : LaneAction} (h : s.KeepsHeads a) :
    s.RootsOnce a := by
  cases a with
  | append lane message fault => exact fun hw r hr => (h hw r hr).1
  | _ => trivial

/-- Every head on record is a leaf. -/
def HeadsLeaf (s : LaneServer) : Prop :=
  ∀ laneId i, s.onRecord laneId = some (some i) → i ∈ s.log.map SessionEntry.id ∧ LeafOf s.log i

theorem HeadsLeaf.of_records {s s' : LaneServer} (h : s.HeadsLeaf)
    (hrecords : s'.storage.records = s.storage.records) : s'.HeadsLeaf := by
  intro laneId i hi
  have hlog : s'.log = s.log := congrArg entriesOf hrecords
  rw [hlog]
  refine h laneId i ?_
  rw [onRecord, ← hrecords]
  exact hi

/-- Putting a leaf on record as the head of a lane. -/
theorem HeadsLeaf.of_laneHead {s s' : LaneServer} (h : s.HeadsLeaf) (laneId : LaneId)
    (head : Option NodeId) (hlog : s'.log = s.log)
    (honRecord : s'.onRecord = Function.update s.onRecord laneId (some head))
    (hhead : ∀ i ∈ head, i ∈ s.log.map SessionEntry.id ∧ LeafOf s.log i) : s'.HeadsLeaf := by
  intro laneId' i hi
  rw [honRecord, Function.update_apply] at hi
  rw [hlog]
  split_ifs at hi
  · exact hhead i (Option.some.inj hi)
  · exact h laneId' i hi

/-- Writing a node under a head that no lane has on record. -/
theorem HeadsLeaf.of_entry {s s' : LaneServer} (h : s.HeadsLeaf) {e : SessionEntry}
    (hlog : s'.log = s.log ++ [e]) (honRecord : s'.onRecord = s.onRecord)
    (hparent : ∀ i ∈ e.parentId, ∀ laneId, s.onRecord laneId ≠ some (some i)) : s'.HeadsLeaf := by
  intro laneId i hi
  rw [honRecord] at hi
  obtain ⟨hmem, hleaf⟩ := h laneId i hi
  rw [hlog, List.map_append]
  exact ⟨List.mem_append_left _ hmem, hleaf.snoc fun hp => hparent i hp laneId hi⟩

/-- Writing a node together with the new head of the lane that builds on it. -/
theorem HeadsLeaf.of_entry_head {s s' : LaneServer} (h : s.HeadsLeaf) (laneId : LaneId)
    {e : SessionEntry} (hlog : s'.log = s.log ++ [e]) (hgrown : GrownLog (s.log ++ [e]))
    (honRecord : s'.onRecord = Function.update s.onRecord laneId (some (some e.id)))
    (hparent : ∀ i ∈ e.parentId, ∀ laneId', s.onRecord laneId' = some (some i) →
      laneId' = laneId) : s'.HeadsLeaf := by
  intro laneId' i hi
  rw [honRecord, Function.update_apply] at hi
  rw [hlog, List.map_append]
  split_ifs at hi with hown
  · cases hi
    exact ⟨List.mem_append_right _ (by simp), hgrown.leaf_last⟩
  · obtain ⟨hmem, hleaf⟩ := h laneId' i hi
    exact ⟨List.mem_append_left _ hmem,
      hleaf.snoc fun hp => hown (hparent i hp laneId' hi)⟩

theorem Sound.headsLeaf_append {s : LaneServer} (hs : s.Sound) (h : s.HeadsLeaf) {lane : ℕ}
    {message : Message} {fault : WriteFault} (ha : s.KeepsHeads (.append lane message fault)) :
    (s.append lane message fault).HeadsLeaf := by
  unfold LaneServer.append
  cases hr : s.runtimes[lane]? with
  | none => exact h
  | some r =>
    rcases r.writer.append_cases s.storage message fault with
      ⟨e, next, hw, -, -⟩ | ⟨hmax, hstore, hfault, hw⟩ | ⟨hmax, hwritten, hclean, hw⟩
    · simp only [hw]
      exact h.of_records rfl
    · obtain ⟨-, hmoves⟩ := ha ⟨by simp [hfault], hmax⟩ r hr
      simp only [hw]
      refine h.of_entry (e := r.writer.entry s.storage message) (entriesOf_append _ _)
        (laneHeads_message _ _) ?_
      intro i hi laneId hrec
      obtain ⟨-, -, hno⟩ := hmoves i hi laneId (onRecord_mem hrec) hrec
      rw [hfault] at hno
      cases hno
    · obtain ⟨hroot, hmoves⟩ := ha ⟨hwritten, hmax⟩ r hr
      simp only [hw]
      cases hstore : s.storage.headStore with
      | false =>
        simp only [Bool.false_eq_true, ↓reduceIte]
        refine h.of_entry (e := r.writer.entry s.storage message) (entriesOf_append _ _)
          (laneHeads_message _ _) ?_
        intro i hi laneId hrec
        obtain ⟨-, hyes, -⟩ := hmoves i hi laneId (onRecord_mem hrec) hrec
        rw [hstore] at hyes
        cases hyes
      | true =>
        simp only [↓reduceIte]
        have hgrown := hs.grown_entry (List.mem_of_getElem? hr) hroot message
        refine h.of_entry_head r.writer.laneId (e := r.writer.entry s.storage message) ?_ hgrown
          ?_ ?_
        · exact entriesOf_append _ _
        · change laneHeads (s.storage.records ++ [.message _, .laneHead _]) = _
          rw [List.append_cons, laneHeads_laneHead, laneHeads_message]
          rfl
        · intro i hi laneId' hrec
          exact (hmoves i hi laneId' (onRecord_mem hrec) hrec).1

theorem Sound.headsLeaf_advance {s s' : LaneServer} (hs : s.Sound) (h : s.HeadsLeaf) {task : ℕ}
    {fails : Bool} (ha : s.KeepsHeads (.advance task fails)) (hstep : s.AdvanceStep task fails s') :
    s'.HeadsLeaf := by
  cases hstep with
  | idle => exact h
  | @persisted laneId head generation ht hnew hstore hfails =>
    refine h.of_laneHead laneId head (SharedSessionStorage.entriesOf_commitHead _ _ _)
      (laneHeads_laneHead _ _) ?_
    intro i hi
    refine ⟨?_, ha _ ht hnew hstore hfails i hi⟩
    obtain ⟨es, hes⟩ := hs.tasks _ (List.mem_of_getElem? ht)
    have hes' : ChainTo s.log head es := hes
    rw [hi] at hes'
    exact hes'.mem_ids
  | dropped | checked | forked | inserted | rolledBack | unbound => exact h.of_records rfl

theorem HeadsLeaf.of_call {s s' : LaneServer} (h : s.HeadsLeaf) {a : LaneAction}
    (hcall : s.CallStep a s') : s'.HeadsLeaf := by
  cases hcall with
  | restarted => exact h.of_records rfl
  | read hreads _ => exact h.of_records hreads.records

theorem Sound.headsLeaf_step {s : LaneServer} (hs : s.Sound) (h : s.HeadsLeaf) {a : LaneAction}
    (ha : s.KeepsHeads a) : (s.step a).HeadsLeaf := by
  rcases hs.step_cases a with ⟨lane, message, fault, rfl⟩ | ⟨task, fails, rfl⟩ | hcall
  · exact hs.headsLeaf_append h ha
  · exact hs.headsLeaf_advance h ha (s.advance_step task fails)
  · exact h.of_call hcall

/-- Over leaves, every storage of the log resumes a lane. -/
theorem Sound.resumes {s : LaneServer} (hs : s.Sound) (h : s.HeadsLeaf)
    (storage : SharedSessionStorage) (hrecords : storage.records = s.storage.records)
    (laneId : LaneId) : ∃ r, storage.resumed laneId = .ok r := by
  obtain ⟨root, next, hsnap, -, -⟩ := hs.snapshot storage hrecords
  have hheads : ∃ r, resolveResumeHead (treeOf s.log storage.sessionId root) none
      (storage.loadLaneHeads laneId) = .ok r := by
    cases hp : storage.loadLaneHeads laneId with
    | none => exact resolveResumeHead_active hs.grown
    | some head =>
      have hrec : s.onRecord laneId = some head := by
        rw [onRecord, ← hrecords]
        unfold SharedSessionStorage.loadLaneHeads at hp
        split_ifs at hp
        exact hp
      have hleaf : ∀ i ∈ head, i ∈ s.log.map SessionEntry.id ∧ LeafOf s.log i := by
        intro i hi
        obtain rfl : head = some i := hi
        exact h laneId i hrec
      obtain ⟨es, hes⟩ : ∃ es, ChainTo s.log head es := by
        cases head with
        | none => exact ⟨[], .root⟩
        | some i => exact hs.grown.exists_chain (hleaf i rfl).1
      exact ⟨_, resolveResumeHead_persisted hs.grown hes fun i hi => (hleaf i hi).2⟩
  simpa only [SharedSessionStorage.resumed, hsnap] using hheads

theorem Sound.headsResume {s : LaneServer} (hs : s.Sound) (h : s.HeadsLeaf) : s.HeadsResume := by
  intro laneId head _
  refine ⟨hs.resumes h s.storage rfl laneId, fun headStore => ?_⟩
  obtain ⟨next, hopen, -, -⟩ := hs.openStorage headStore
  obtain ⟨r, hr⟩ := hs.resumes h
    ⟨s.storage.sessionId, s.storage.records, next, headStore, []⟩ rfl laneId
  exact ⟨_, r, hopen, hr⟩

/-- As long as nothing is written under a head on record but by its own lane together with the
new head, every lane on record resumes, over any interleaving and any number of restarts. -/
theorem headsResume_throughout (sessionId : String) (as : List LaneAction)
    (has : Along step KeepsHeads (fresh sessionId) as) :
    Throughout step HeadsResume (fresh sessionId) as := by
  have hstep : ∀ s a, (Sound s ∧ s.HeadsLeaf) → s.KeepsHeads a →
      (Sound (s.step a) ∧ (s.step a).HeadsLeaf) :=
    fun s a hs ha => ⟨hs.1.step ha.rootsOnce, hs.1.headsLeaf_step hs.2 ha⟩
  have hfresh : HeadsLeaf (fresh sessionId) := fun laneId i hi => by cases hi
  exact throughout hstep (fun s hs => hs.1.headsResume hs.2) ⟨Sound.fresh sessionId, hfresh⟩ has

/-- A crash between the first message of a lane and its head, a second life of the lane, and
another lane that goes on at its newest node. -/
def resumableLanes : List LaneAction :=
  [.createSession true, .spawnLane "a", .advance 0 false, .append 0 helloMessage .head,
    .restart, .loadAndResume true "a" none, .advance 0 false, .advance 0 false,
    .append 0 helloMessage .clean, .append 0 helloMessage .clean, .restart,
    .loadAndResume true "b" (some 2)]

theorem headsResume_resumableLanes :
    Throughout step HeadsResume (fresh "session") resumableLanes := by
  apply headsResume_throughout
  decide +kernel

/-- A lane is forked and goes on; the fork has the node both share on record. -/
def forkedBehind : List LaneAction :=
  [.createSession true, .spawnLane "a", .advance 0 false, .advance 0 false,
    .append 0 helloMessage .clean, .forkLane "a" "b", .advance 0 false, .advance 0 false,
    .advance 0 false, .append 0 helloMessage .clean]

/-- A crash between the second message of a lane and its head. -/
def cutBehind : List LaneAction :=
  [.createSession true, .spawnLane "a", .advance 0 false, .advance 0 false,
    .append 0 helloMessage .clean, .append 0 helloMessage .head, .restart]

/-- In both runs a lane has a head on record that is an inner node by now. -/
theorem innerHeads_stuck : ¬ Throughout step HeadsResume (fresh "session") forkedBehind ∧
    ¬ Throughout step HeadsResume (fresh "session") cutBehind := by
  constructor
  · intro h
    have hrec : (run step (fresh "session") forkedBehind).onRecord "b" = some (some 0) := by
      decide +kernel
    obtain ⟨⟨r, hr⟩, -⟩ := h.last "b" (some 0) hrec
    have hfail :
        ((run step (fresh "session") forkedBehind).storage.resumed "b").toOption = none := by
      decide +kernel
    rw [hr] at hfail
    cases hfail
  · intro h
    have hrec : (run step (fresh "session") cutBehind).onRecord "a" = some (some 0) := by
      decide +kernel
    obtain ⟨⟨r, hr⟩, -⟩ := h.last "a" (some 0) hrec
    have hfail : ((run step (fresh "session") cutBehind).storage.resumed "a").toOption = none := by
      decide +kernel
    rw [hr] at hfail
    cases hfail

end LaneServer

end Guigu
