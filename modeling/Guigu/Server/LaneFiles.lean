import Guigu.Core.Session.LaneWriters
import Guigu.Server.LaneRoots

/-! The lanes of a session over the bytes of its file, where a failing write may leave a part of its
line, and acknowledged messages on the way to the heads. -/
namespace Guigu

open Runs

/-- The storage without its records. -/
def SharedSessionStorage.shared (t : SharedSessionStorage) : SharedFile :=
  ⟨⟨t.sessionId, t.nextId, false⟩, t.headStore, t.headCommitted⟩

/-- A session and its file. The records that `server.storage` keeps are not looked at: every read
goes through the file. -/
structure FileServer where
  file : FileBytes
  server : LaneServer

/-- A call of a client; the next step of a lane under creation, whose first head is written as `out`
says; a message of a bridge, and how both of its writes end. -/
inductive FileServerAction where
  | call (a : LaneAction)
  | advance (task : ℕ) (out : WriteOutcome)
  | append (lane : ℕ) (message : Message) (out headOut : WriteOutcome)

namespace FileServer

def fresh (sessionId : String) : FileServer := ⟨[], .fresh sessionId⟩

def advance (s : FileServer) (task : ℕ) (out : WriteOutcome) : FileServer :=
  match s.server.tasks[task]? with
  | some (.registered laneId head generation) =>
    let written := s.server.storage.shared.persistInitialHead s.file laneId head out
    let server : LaneServer :=
      { s.server with
        storage := written.2.1.withRecords s.server.storage.records
        tasks := s.server.tasks.eraseIdx task }
    ⟨written.2.2, match written.1 with
      | .error _ => server.removeLaneIfGeneration laneId generation
      | .ok () => server⟩
  | _ => { s with server := s.server.advance task false }

/-- The bridge of a lane writes a message and goes on whatever the result is. -/
def append (s : FileServer) (lane : ℕ) (message : Message) (out headOut : WriteOutcome) :
    FileServer :=
  match s.server.runtimes[lane]? with
  | none => s
  | some r =>
    let written := r.writer.appendTo s.server.storage.shared s.file message out headOut
    ⟨written.2.2.2,
      { s.server with
        storage := written.2.2.1.withRecords s.server.storage.records
        runtimes := s.server.runtimes.set lane
          { r with
            writer := written.2.1
            acked := r.acked ++ (written.1.toOption.map fun _ => message).toList } }⟩

/-- Writes are no calls. -/
def step (s : FileServer) : FileServerAction → FileServer
  | .call (.advance _ _) | .call (.append _ _ _) => s
  | .call a => { s with server := s.server.callOver s.file a }
  | .advance task out => s.advance task out
  | .append lane message out headOut => s.append lane message out headOut

/-- What is written can be read back, and a lane without a node puts a message on file only while
the file has none. -/
def Writable (s : FileServer) : FileServerAction → Prop
  | .call _ => True
  | .advance task out => ∀ t ∈ s.server.tasks[task]?, ∀ laneId head generation,
    t = .registered laneId head generation →
      s.server.storage.shared.SafePersist s.file laneId head out
  | .append lane message out headOut => ∀ r ∈ s.server.runtimes[lane]?,
    s.server.storage.shared.SafeAppend s.file r.writer.laneId r.writer.head message out headOut ∧
      (out = .done → s.server.storage.nextId ≠ maxNodeId → r.writer.head = none →
        logOf s.file = [])

/-- The file reduces, and every lane has its acknowledged messages, in order, on the path from the
root to its head. -/
def PathsComplete (s : FileServer) : Prop :=
  ∃ records tree, readRecords s.file = .ok records ∧
    reduceFor (entriesOf records) s.server.storage.sessionId = .ok tree ∧
    ∀ r ∈ s.server.runtimes, ∃ path, tree.headPath r.writer.head = some path ∧
      r.acked.Sublist path

/-- The same server over the records that are read of the file. -/
def Shows (s : FileServer) (t : LaneServer) : Prop :=
  s.server.withRecords t.storage.records = t ∧ Holds s.file t.storage.records

end FileServer

/-- A lane is spawned without a look at the storage. -/
theorem LaneServer.spawnLane_withRecords (s : LaneServer) (records : List SessionRecord)
    (laneId : LaneId) : (s.withRecords records).step (.spawnLane laneId) =
      (s.step (.spawnLane laneId)).withRecords records := by
  have hcheck : (s.withRecords records).checkLane laneId = s.checkLane laneId := rfl
  simp only [LaneServer.step, LaneServer.spawnLane, hcheck]
  cases s.checkLane laneId <;> rfl

/-- And so is a fork. -/
theorem LaneServer.forkLane_withRecords (s : LaneServer) (records : List SessionRecord)
    (fromLane newLane : LaneId) : (s.withRecords records).step (.forkLane fromLane newLane) =
      (s.step (.forkLane fromLane newLane)).withRecords records := by
  have hcheck : (s.withRecords records).checkLane newLane = s.checkLane newLane := rfl
  have hlanes : (s.withRecords records).lanes = s.lanes := rfl
  simp only [LaneServer.step, LaneServer.forkLane, hcheck, hlanes]
  cases s.checkLane newLane with
  | error e => rfl
  | ok u => cases s.lanes.lookup fromLane <;> rfl

theorem LaneServer.checkInsert_withRecords (s : LaneServer) (records : List SessionRecord)
    (laneId : LaneId) (fromLane : Option LaneId) :
    (s.withRecords records).checkInsert laneId fromLane = s.checkInsert laneId fromLane := rfl

/-- Only a first head that goes on record depends on the storage. -/
theorem LaneServer.advance_withRecords (s : LaneServer) (records : List SessionRecord) {task : ℕ}
    (fails : Bool)
    (h : ∀ laneId head generation, s.tasks[task]? ≠ some (.registered laneId head generation)) :
    (s.withRecords records).advance task fails = (s.advance task false).withRecords records := by
  have htasks : (s.withRecords records).tasks = s.tasks := rfl
  unfold LaneServer.advance
  rw [htasks]
  cases ht : s.tasks[task]? with
  | none => rfl
  | some t =>
    cases t with
    | resumed laneId head transcript =>
      have hcheck : (s.withRecords records).checkLane laneId = s.checkLane laneId := rfl
      simp only [hcheck]
      cases s.checkLane laneId <;> rfl
    | forking fromLane newLane source =>
      have hruntimes : (s.withRecords records).runtimes = s.runtimes := rfl
      simp only [hruntimes]
      cases s.runtimes[source]? <;> rfl
    | spawned laneId head transcript persistInitial fromLane =>
      simp only [checkInsert_withRecords]
      cases s.checkInsert laneId fromLane <;> rfl
    | registered laneId head generation => exact absurd ht (h laneId head generation)

namespace FileServer

variable {s : FileServer} {t : LaneServer}

theorem Shows.log_eq (h : s.Shows t) : logOf s.file = t.log := by
  rw [logOf, h.2.readRecords]
  rfl

theorem Shows.storage (h : s.Shows t) : s.server.storage.shared.Shows s.file t.storage := by
  obtain ⟨hserver, hholds⟩ := h
  refine ⟨rfl, ?_, hholds⟩
  rw [← hserver]
  rfl

/-- A step that leaves file and records alone. -/
theorem Shows.pass (h : s.Shows t) {server t' : LaneServer}
    (hserver : server.withRecords t.storage.records = t') :
    Shows { s with server := server } t' := by
  rw [← hserver]
  exact ⟨rfl, h.2⟩

/-- A call that reads the file leaves the records as they are. -/
theorem Shows.read (h : s.Shows t) {a : LaneAction} (hcall : t.CallStep a (t.step a))
    (hover : s.server.callOver s.file a =
      (match readRecords s.file with
        | .error _ => s.server
        | .ok records =>
          ((s.server.withRecords records).step a).withRecords s.server.storage.records)) :
    Shows { s with server := s.server.callOver s.file a } (t.step a) := by
  obtain ⟨hserver, hholds⟩ := h
  rw [hholds.readRecords] at hover
  simp only [hserver] at hover
  have hrecords : (t.step a).storage.records = t.storage.records := hcall.records
  refine ⟨?_, ?_⟩
  · show (s.server.callOver s.file a).withRecords (t.step a).storage.records = _
    rw [hover]
    rfl
  · rw [hrecords]
    exact hholds

/-- A call does the same over the file and over the records. -/
theorem Shows.call (h : s.Shows t) (ht : t.Sound) (a : LaneAction) :
    ∃ bs, Along LaneServer.step LaneServer.RootsOnce t bs ∧
      (s.step (.call a)).Shows (run LaneServer.step t bs) := by
  cases a with
  | advance task fails => exact ⟨[], trivial, h⟩
  | append lane message fault => exact ⟨[], trivial, h⟩
  | restart =>
    refine ⟨[.restart], ⟨trivial, trivial⟩, ?_, h.2⟩
    rw [← h.1]
    rfl
  | spawnLane laneId =>
    refine ⟨[.spawnLane laneId], ⟨trivial, trivial⟩, ?_⟩
    have hspawn := s.server.spawnLane_withRecords t.storage.records laneId
    rw [h.1] at hspawn
    exact h.pass hspawn.symm
  | forkLane fromLane newLane =>
    refine ⟨[.forkLane fromLane newLane], ⟨trivial, trivial⟩, ?_⟩
    have hfork := s.server.forkLane_withRecords t.storage.records fromLane newLane
    rw [h.1] at hfork
    exact h.pass hfork.symm
  | createSession headStore =>
    exact ⟨[.createSession headStore], ⟨trivial, trivial⟩, h.read (ht.call_createSession _) rfl⟩
  | loadSession headStore =>
    exact ⟨[.loadSession headStore], ⟨trivial, trivial⟩, h.read (ht.call_loadSession _) rfl⟩
  | loadAndResume headStore laneId head =>
    exact ⟨[.loadAndResume headStore laneId head], ⟨trivial, trivial⟩,
      h.read (ht.call_loadAndResume _ _ _) rfl⟩
  | resumeLane laneId head =>
    exact ⟨[.resumeLane laneId head], ⟨trivial, trivial⟩, h.read (ht.call_resumeLane _ _) rfl⟩

/-- A lane under creation takes the same step. -/
theorem Shows.advance (h : s.Shows t) {task : ℕ} {out : WriteOutcome}
    (ha : s.Writable (.advance task out)) :
    (s.advance task out).Shows (t.advance task out.fails) := by
  have hstorage := h.storage
  obtain ⟨file, server⟩ := s
  obtain ⟨hserver, hholds⟩ := h
  have htasks : t.tasks = server.tasks := by rw [← hserver]; rfl
  by_cases hregistered : ∃ laneId head generation,
      server.tasks[task]? = some (.registered laneId head generation)
  · obtain ⟨laneId, head, generation, ht⟩ := hregistered
    obtain ⟨hreturned, hshows⟩ :=
      hstorage.persistInitialHead (ha _ ht laneId head generation rfl)
    simp only [FileServer.advance, LaneServer.advance, htasks, ht]
    generalize server.storage.shared.persistInitialHead file laneId head out = x at hreturned hshows
    generalize t.storage.persistInitialHead laneId head out.fails = y at hreturned hshows
    obtain ⟨r, st, file'⟩ := x
    obtain ⟨r', storage⟩ := y
    obtain rfl : r = r' := hreturned
    obtain ⟨records, hover, hholds'⟩ := hshows.eq_withRecords
    have hover' : storage = st.withRecords records := hover
    subst hover'
    rw [← hserver]
    cases r with
    | error e => exact ⟨rfl, hholds'⟩
    | ok u => exact ⟨rfl, hholds'⟩
  · have hother : ∀ laneId head generation,
        server.tasks[task]? ≠ some (.registered laneId head generation) :=
      fun laneId head generation ht => hregistered ⟨laneId, head, generation, ht⟩
    have hsame : FileServer.advance ⟨file, server⟩ task out =
        ⟨file, server.advance task false⟩ := by
      unfold FileServer.advance
      split
      · rename_i ht
        exact absurd ht (hother _ _ _)
      · rfl
    have hadvance := server.advance_withRecords t.storage.records out.fails hother
    rw [hserver] at hadvance
    rw [hsame, hadvance]
    exact ⟨rfl, hholds⟩

/-- A bridge writes the same. -/
theorem Shows.append (h : s.Shows t) {lane : ℕ} {message : Message} {out headOut : WriteOutcome}
    (ha : s.Writable (.append lane message out headOut)) :
    (s.append lane message out headOut).Shows (t.append lane message (out.fault headOut)) := by
  have hstorage := h.storage
  obtain ⟨file, server⟩ := s
  obtain ⟨hserver, hholds⟩ := h
  have hruntimes : t.runtimes = server.runtimes := by rw [← hserver]; rfl
  cases hr : server.runtimes[lane]? with
  | none =>
    simp only [FileServer.append, LaneServer.append, hruntimes, hr]
    exact ⟨hserver, hholds⟩
  | some r =>
    obtain ⟨hreturned, hwriter, hshows⟩ := LaneWriter.appendTo_shows hstorage (ha r hr).1
    simp only [FileServer.append, LaneServer.append, hruntimes, hr, hreturned, hwriter]
    generalize r.writer.appendTo server.storage.shared file message out headOut = x at hshows
    generalize r.writer.append t.storage message (out.fault headOut) = y at hshows
    obtain ⟨records, hover, hholds'⟩ := hshows.eq_withRecords
    rw [← hserver, hover]
    exact ⟨rfl, hholds'⟩

theorem Shows.step (h : s.Shows t) (ht : t.Sound) {a : FileServerAction} (ha : s.Writable a) :
    ∃ bs, Along LaneServer.step LaneServer.RootsOnce t bs ∧
      (s.step a).Shows (run LaneServer.step t bs) := by
  cases a with
  | call a => exact h.call ht a
  | advance task out => exact ⟨[.advance task out.fails], ⟨trivial, trivial⟩, h.advance ha⟩
  | append lane message out headOut =>
    refine ⟨[.append lane message (out.fault headOut)], ⟨?_, trivial⟩, h.append ha⟩
    rintro ⟨hwritten, hmax⟩ r hr hnone
    have hserver := h.1
    have hr' : s.server.runtimes[lane]? = some r := by
      rw [← hserver] at hr
      exact hr
    have hmax' : s.server.storage.nextId ≠ maxNodeId := by
      rw [← hserver] at hmax
      exact hmax
    have hdone : out = .done := by
      cases out with
      | done => rfl
      | torn k => exact absurd rfl hwritten
    rw [← h.log_eq]
    exact (ha r hr').2 hdone hmax' hnone

/-- As long as what is written can be read back, and a lane without a node puts a message on file
only while the file has none, the file reduces and keeps every acknowledged message on the path of
its lane, whichever writes fail. -/
theorem pathsComplete_throughout (sessionId : String) (as : List FileServerAction)
    (has : Along step Writable (fresh sessionId) as) :
    Throughout step PathsComplete (fresh sessionId) as := by
  have hstart : (fresh sessionId).Shows (.fresh sessionId) := ⟨rfl, .of_complete .nil⟩
  refine throughout_of_matched (fun _ _ _ h ht ha => h.step ht ha) (fun _ _ ht hb => ht.step hb) ?_
    hstart (LaneServer.Sound.fresh sessionId) has
  intro s t h ht
  obtain ⟨tree, hred, hpaths⟩ := ht.pathsComplete
  have hserver := h.1
  refine ⟨t.storage.records, tree, h.2.readRecords, ?_, ?_⟩
  · rw [← hred, ← hserver]
    rfl
  · rw [← hserver] at hpaths
    exact hpaths

instance (s : FileServer) : (a : FileServerAction) → Decidable (s.Writable a)
  | .call _ => .isTrue trivial
  | .advance task out =>
    match ht : s.server.tasks[task]? with
    | some (.registered laneId head generation) =>
      decidable_of_iff (s.server.storage.shared.SafePersist s.file laneId head out) (by
        simp [Writable, ht])
    | none => .isTrue (by simp [Writable, ht])
    | some (.resumed _ _ _) => .isTrue (by simp [Writable, ht])
    | some (.forking _ _ _) => .isTrue (by simp [Writable, ht])
    | some (.spawned _ _ _ _ _) => .isTrue (by simp [Writable, ht])
  | .append lane message out headOut => inferInstanceAs (Decidable
    (∀ r ∈ s.server.runtimes[lane]?,
      s.server.storage.shared.SafeAppend s.file r.writer.laneId r.writer.head message out headOut ∧
        (out = .done → s.server.storage.nextId ≠ maxNodeId → r.writer.head = none →
          logOf s.file = [])))

/-- The head of the second message is lost and leaves nothing, and the bridge goes on with a third,
whose head is cut short. -/
def lostSecondHead : List FileServerAction :=
  [.call (.createSession true), .call (.spawnLane "a"), .advance 0 .done, .advance 0 .done,
    .append 0 helloMessage .done .done, .append 0 helloMessage .done (.torn 0),
    .append 0 helloMessage .done (.torn 9), .call .restart, .call (.loadAndResume true "a" none)]

theorem pathsComplete_lostSecondHead :
    Throughout step PathsComplete (fresh "session") lostSecondHead := by
  apply pathsComplete_throughout
  decide +kernel

/-- The acknowledged messages of a lane lie on the path that is read of the file. -/
def KeptOnPath (s : FileServer) (r : LaneRuntime) : Prop :=
  ∃ path ∈ s.server.storage.shared.pathOf s.file r.writer.head, r.acked.Sublist path

instance (s : FileServer) (r : LaneRuntime) : Decidable (s.KeptOnPath r) :=
  inferInstanceAs (Decidable (∃ path ∈ s.server.storage.shared.pathOf s.file r.writer.head,
    r.acked.Sublist path))

theorem PathsComplete.keptOnPath (h : s.PathsComplete) {r : LaneRuntime}
    (hr : s.server.runtimes[0]? = some r) : s.KeptOnPath r := by
  obtain ⟨records, tree, hread, hred, hpaths⟩ := h
  obtain ⟨path, hpath, hsub⟩ := hpaths r (List.mem_of_getElem? hr)
  refine ⟨path, ?_, hsub⟩
  have hlog : (s.server.storage.shared.withRecords records).log = entriesOf records := rfl
  have hsession : (s.server.storage.shared.withRecords records).sessionId =
      s.server.storage.sessionId := rfl
  simp only [SharedFile.pathOf, hread, SharedSessionStorage.pathOf, hlog, hsession, hred, hpath]
  rfl

/-- The head of the first message is lost, the bridge goes on with a second. -/
def lostFirstHead : List FileServerAction :=
  [.call (.createSession true), .call (.spawnLane "a"), .advance 0 .done, .advance 0 .done,
    .append 0 helloMessage .done (.torn 0), .append 0 helloMessage .done .done]

/-- One byte of a lost head stays on file. -/
def gluedThird : List FileServerAction :=
  [.call (.createSession true), .call (.spawnLane "a"), .advance 0 .done, .advance 0 .done,
    .append 0 helloMessage .done .done, .append 0 helloMessage .done (.torn 1),
    .append 0 helloMessage .done .done]

/-- The second message becomes another root; the third one is acknowledged and cannot be read. -/
theorem lostHeads_lose : ¬ Throughout step PathsComplete (fresh "session") lostFirstHead ∧
    ¬ Throughout step PathsComplete (fresh "session") gluedThird := by
  constructor
  · intro hrun
    have hlane : (run step (fresh "session") lostFirstHead).server.runtimes[0]? =
        some ⟨⟨"a", some 1⟩, [], [helloMessage]⟩ := by decide +kernel
    have hlost : ¬ (run step (fresh "session") lostFirstHead).KeptOnPath
        ⟨⟨"a", some 1⟩, [], [helloMessage]⟩ := by decide +kernel
    exact hlost (hrun.last.keptOnPath hlane)
  · intro hrun
    have hlane : (run step (fresh "session") gluedThird).server.runtimes[0]? =
        some ⟨⟨"a", some 2⟩, [], [helloMessage, helloMessage]⟩ := by decide +kernel
    have hlost : ¬ (run step (fresh "session") gluedThird).KeptOnPath
        ⟨⟨"a", some 2⟩, [], [helloMessage, helloMessage]⟩ := by decide +kernel
    exact hlost (hrun.last.keptOnPath hlane)

end FileServer

end Guigu
