import Guigu.Core.AgentRuns
import Guigu.Core.Runtime.Persistence
import Guigu.Server.LaneHeads

/-! The lanes of a session with the agents behind them. An agent changes its transcript in place,
its bridge writes what the agent announces, and a lane is resumed from what is on record. -/
namespace Guigu

open Runs

/-- The agent of a lane, and how many of its announced messages the bridge has received. -/
structure LaneAgent where
  runtime : AgentRuntime
  state : AgentState
  received : ℕ

/-- The announced messages that the bridge has still to receive. -/
def LaneAgent.pending (a : LaneAgent) : List Message :=
  (messageEnds a.state.ctx.trace).drop a.received

/-- The agents stand in the order of the runtimes of the server. -/
structure ServedSession where
  server : LaneServer
  agents : List LaneAgent

/-- A step of the server, with the runtime of the lane that it registers; a round of an agent; and
the bridge of a lane, which writes the next message. -/
inductive ServedAction where
  | serve (a : LaneAction) (runtime : AgentRuntime)
  | round (lane : ℕ) (a : AgentAction)
  | bridge (lane : ℕ) (fault : WriteFault)

namespace ServedSession

def fresh (sessionId : String) : ServedSession := ⟨.fresh sessionId, []⟩

/-- The bytes of the session file, where no write fails. -/
def file (s : ServedSession) : FileBytes := logBytes s.server.storage.records

/-- A call reads the file. A new lane gets an agent that starts with its transcript. -/
def serve (s : ServedSession) (a : LaneAction) (runtime : AgentRuntime) : ServedSession :=
  let server := s.server.callOver s.file a
  let started := (server.runtimes.drop s.agents.length).map fun r =>
    (⟨runtime, .start r.transcript, 0⟩ : LaneAgent)
  ⟨server, (s.agents ++ started).take server.runtimes.length⟩

/-- Appends come from the bridges only. -/
def step (s : ServedSession) : ServedAction → ServedSession
  | .serve (.append _ _ _) _ => s
  | .serve a runtime => s.serve a runtime
  | .round lane a =>
    match s.agents[lane]? with
    | none => s
    | some agent =>
      { s with
        agents := s.agents.set lane { agent with state := agent.state.step agent.runtime a } }
  | .bridge lane fault =>
    match s.agents[lane]? with
    | none => s
    | some agent =>
      match agent.pending with
      | [] => s
      | message :: _ =>
        ⟨s.server.append lane message fault,
          s.agents.set lane { agent with received := agent.received + 1 }⟩

end ServedSession

def LaneTask.generation? : LaneTask → Option ℕ
  | .registered _ _ generation => some generation
  | _ => none

namespace LaneServer

/-- The lane has still to put its first head on record. -/
def Registering (s : LaneServer) (lane : ℕ) : Prop := ∃ t ∈ s.tasks, t.generation? = some lane

instance (s : LaneServer) (lane : ℕ) : Decidable (s.Registering lane) :=
  inferInstanceAs (Decidable (∃ t ∈ s.tasks, t.generation? = some lane))

/-- The head is the one on record, or nothing is on record and it is the newest node. -/
def AtRecord (s : LaneServer) (laneId : LaneId) (head : Option NodeId) : Prop :=
  s.onRecord laneId = some head ∨
    s.onRecord laneId = none ∧ (s.log.map SessionEntry.id).max? = head

/-- A new lane starts without a node, a resumed one at a leaf where it also starts when it is
resumed again. -/
def StartsAtRecord (s : LaneServer) : LaneTask → Prop
  | .spawned laneId head _ persistInitial _ => s.contains laneId = false →
    if persistInitial then head = none
    else s.AtRecord laneId head ∧ ∀ i ∈ head, ∀ e ∈ s.log, e.parentId ≠ some i
  | _ => True

/-- The lane has not the given node as its head, and has a head on record or is still to put its
first one there. -/
def Apart (s : LaneServer) (head : Option NodeId) (other : ℕ) : Prop :=
  ∀ q ∈ s.runtimes[other]?, (head ≠ none → q.writer.head ≠ head) ∧
    (s.Registering other ∨ s.onRecord q.writer.laneId ≠ none)

/-- A lane without a node starts the log, and no other lane of the process depends on where a lane
writes. -/
def WritesAlone (s : LaneServer) (lane : ℕ) : Prop :=
  ∀ r ∈ s.runtimes[lane]?, (r.writer.head = none → s.log = []) ∧
    (s.storage.headStore = true →
      ∀ other < s.runtimes.length, other ≠ lane → s.Apart r.writer.head other)

/-- The next message of a lane is read back as it is. -/
def ReadsBack (s : LaneServer) (lane : ℕ) (message : Message) : Prop :=
  ∀ r ∈ s.runtimes[lane]?, (SessionRecord.message (r.writer.entry s.storage message)).Legible

instance (s : LaneServer) (lane : ℕ) (message : Message) : Decidable (s.ReadsBack lane message) :=
  inferInstanceAs (Decidable (∀ r ∈ s.runtimes[lane]?,
    (SessionRecord.message (r.writer.entry s.storage message)).Legible))

instance (s : LaneServer) (laneId : LaneId) (head : Option NodeId) :
    Decidable (s.AtRecord laneId head) := inferInstanceAs (Decidable (_ ∨ _ ∧ _))

instance (s : LaneServer) : (t : LaneTask) → Decidable (s.StartsAtRecord t)
  | .spawned laneId head _ persistInitial _ => inferInstanceAs (Decidable
    (s.contains laneId = false → if persistInitial then head = none
      else s.AtRecord laneId head ∧ ∀ i ∈ head, ∀ e ∈ s.log, e.parentId ≠ some i))
  | .resumed _ _ _ | .forking _ _ _ | .registered _ _ _ => .isTrue trivial

instance (s : LaneServer) (head : Option NodeId) (other : ℕ) : Decidable (s.Apart head other) :=
  inferInstanceAs (Decidable (∀ q ∈ s.runtimes[other]?, (head ≠ none → q.writer.head ≠ head) ∧
    (s.Registering other ∨ s.onRecord q.writer.laneId ≠ none)))

instance (s : LaneServer) (lane : ℕ) : Decidable (s.WritesAlone lane) :=
  inferInstanceAs (Decidable (∀ r ∈ s.runtimes[lane]?, (r.writer.head = none → s.log = []) ∧
    (s.storage.headStore = true →
      ∀ other < s.runtimes.length, other ≠ lane → s.Apart r.writer.head other)))

end LaneServer

/-- No `Reset` of messages, no compaction that is committed, and every turn that is taken has its
compaction cancelled, or its stream set up and an answer that is aborted or without calls. -/
def growing : Demand where
  takes ctx cmd := decide (cmd ≠ .reset) || ctx.transcript.isEmpty
  start _ _ := true
  turn rt s env := (env.commit? rt s.ctx.transcript).isNone && env.persists rt s

namespace ServedSession

/-- A lane whose bridge has written everything, and whose creation is complete, starts in a new
process that reads the file where it was, with the transcript that its agent has. -/
def Restarts (s : ServedSession) : Prop :=
  s.server.storage.headStore = true → ∀ lane r agent, s.server.runtimes[lane]? = some r →
    s.agents[lane]? = some agent → ¬ s.server.Registering lane → agent.pending = [] →
    ∃ storage, SharedFile.reopen s.file s.server.storage.sessionId true = .ok storage ∧
      storage.resumed s.file r.writer.laneId =
        .ok (r.writer.head, agent.state.ctx.transcript)

/-- Every write goes through and is read back as it is, the lanes start and write as asked, and
transcripts only grow by what is announced. -/
def Mirrors (s : ServedSession) : ServedAction → Prop
  | .serve (.advance task fails) _ => fails = false ∧
    (s.server.storage.headStore = true → ∀ t ∈ s.server.tasks[task]?, s.server.StartsAtRecord t)
  | .serve _ _ => True
  | .round lane a => s.server.storage.headStore = true →
    ∀ agent ∈ s.agents[lane]?, growing.Met agent.runtime agent.state a
  | .bridge lane fault => ∀ agent ∈ s.agents[lane]?, ∀ message ∈ agent.pending.head?,
    fault = .clean ∧ s.server.storage.nextId ≠ maxNodeId ∧ s.server.ReadsBack lane message ∧
      s.server.WritesAlone lane

instance (s : ServedSession) : (a : ServedAction) → Decidable (s.Mirrors a)
  | .serve (.advance task fails) _ => inferInstanceAs (Decidable (fails = false ∧
    (s.server.storage.headStore = true →
      ∀ t ∈ s.server.tasks[task]?, s.server.StartsAtRecord t)))
  | .serve .restart _ | .serve (.createSession _) _ | .serve (.loadSession _) _
  | .serve (.loadAndResume _ _ _) _ | .serve (.resumeLane _ _) _ | .serve (.spawnLane _) _
  | .serve (.forkLane _ _) _ | .serve (.append _ _ _) _ => .isTrue trivial
  | .round lane a => inferInstanceAs (Decidable (s.server.storage.headStore = true →
    ∀ agent ∈ s.agents[lane]?, growing.Met agent.runtime agent.state a))
  | .bridge lane fault => inferInstanceAs (Decidable (∀ agent ∈ s.agents[lane]?,
    ∀ message ∈ agent.pending.head?,
      fault = .clean ∧ s.server.storage.nextId ≠ maxNodeId ∧ s.server.ReadsBack lane message ∧
        s.server.WritesAlone lane))

end ServedSession

/-- The transcript is a path and what has been announced behind the first `received` messages. -/
def RunContext.Follows (ctx : RunContext) (path : List Message) (received : ℕ) : Prop :=
  received ≤ (messageEnds ctx.trace).length ∧
    ctx.transcript = path ++ (messageEnds ctx.trace).drop received

namespace RunContext.Follows

variable {ctx ctx' : RunContext} {path : List Message} {received : ℕ}

/-- What is pushed and announced alike keeps the transcript behind the path. -/
theorem adds (h : ctx.Follows path received) {pushed : List Message} {effects : List Effect}
    (hadds : Adds ctx ctx' pushed effects) (hends : messageEnds effects = pushed) :
    ctx'.Follows path received := by
  obtain ⟨hle, htranscript⟩ := h
  have hall : messageEnds ctx'.trace = messageEnds ctx.trace ++ pushed := by
    rw [hadds.trace, messageEnds_append, hends]
  constructor
  · rw [hall, List.length_append]
    exact Nat.le_add_right_of_le hle
  · rw [hadds.transcript, htranscript, hall, List.drop_append_of_le_length hle,
      List.append_assoc]

/-- Taking a command up announces nothing. -/
theorem next (h : ctx.Follows path received) {cmd : AgentCommand} (hnext : Next ctx cmd ctx') :
    (ctx'.record [.processing cmd]).Follows path received := by
  cases hnext with
  | @dequeued queue hqueue =>
    have hrest : ({ ctx with queue := queue } : RunContext).Follows path received := h
    exact hrest.adds (adds_record _ [.processing cmd]) rfl
  | received hqueue =>
    have hadds := (adds_record ctx [.drained cmd]).trans
      (adds_record (ctx.record [.drained cmd]) [.processing cmd])
    exact h.adds hadds rfl

/-- What the bridge receives becomes a part of the path. -/
theorem receive (h : ctx.Follows path received) {message : Message} {rest : List Message}
    (hpending : (messageEnds ctx.trace).drop received = message :: rest) :
    ctx.Follows (path ++ [message]) (received + 1) := by
  obtain ⟨-, htranscript⟩ := h
  have hrest : (messageEnds ctx.trace).drop (received + 1) = rest := by
    rw [← List.tail_drop, hpending, List.tail_cons]
  have hlt : received < (messageEnds ctx.trace).length := by
    by_contra hge
    rw [List.drop_eq_nil_of_le (not_lt.mp hge)] at hpending
    cases hpending
  refine ⟨hlt, ?_⟩
  rw [htranscript, hpending, hrest, List.append_assoc]
  rfl

end RunContext.Follows

/-- Rounds that meet the demand keep the transcript behind the path. -/
theorem growing_keeps (rt : AgentRuntime) (path : List Message) (received : ℕ) :
    growing.Keeps rt fun ctx _ => ctx.Follows path received where
  start := by
    intro ctx ctx' cmd initial n arrivals h hnext hinitial htakes hstart
    have hadds := RunContext.adds_startLoop (ctx'.record [.processing cmd]) initial arrivals
    exact (h.next hnext).adds hadds (announces_startLoop initial arrivals).ends
  turn := by
    intro s env n h hturn
    have hboth := Bool.and_eq_true_iff.mp hturn
    obtain ⟨hnone, hpersists⟩ := hboth
    cases hfin : s.finished with
    | true =>
      rw [turnStep_finished env hfin]
      exact h
    | false =>
      obtain ⟨pushed, effects, hadds, -, hiff⟩ :=
        turnStep_ends hfin (Option.isNone_iff_eq_none.mp hnone)
      exact h.adds hadds (hiff.mpr hpersists)
  close := by
    intro ctx n h
    exact h.adds (RunContext.adds_send ctx _) rfl
  reset := by
    intro ctx ctx' n h hnext htakes
    have hempty : ctx'.transcript = [] := by simpa [growing] using htakes
    obtain ⟨hle, htranscript⟩ := h.next hnext
    exact ⟨hle, hempty.symm.trans htranscript⟩
  skip := by
    intro ctx ctx' cmd n h hnext hcuts htakes
    exact h.next hnext

end Guigu
