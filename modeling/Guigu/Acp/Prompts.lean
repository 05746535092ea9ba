import Guigu.Acp.Jsonrpc
import Guigu.Core.Rounds
import Guigu.Library.Broadcast
import Guigu.Server.LaneRecovery

/-! Prompts of a session: each sends its messages to the runtime of the default lane, follows the
events of the lane and answers when a run has ended. -/
namespace Guigu.Acp

open Broadcast

def DEFAULT_LANE : LaneId := "default"

/-- What a prompt fails with. -/
inductive PromptError where
  | acp (e : AcpError)
  | server (e : ServerError)
  deriving DecidableEq

inductive AcpStopReason where
  | endTurn | maxTokens | refusal | cancelled
  deriving DecidableEq

def acpStopReason : StopReason → AcpStopReason
  | .completed => .endTurn
  | .length => .maxTokens
  | .error => .refusal
  | .aborted => .cancelled
  | .pending | .other _ => .endTurn

def toolKind (name : String) : String :=
  if name = "read" then "read"
  else if name = "write" ∨ name = "edit" then "edit"
  else if name = "bash" then "execute"
  else "other"

def textContent (text : String) : Json := .obj [("type", .str "text"), ("text", .str text)]

def toolResultToContent (result : ToolResult) : Json :=
  .arr (result.content.filterMap fun
    | .text text => some (.obj [("type", .str "content"), ("content", textContent text)])
    | .image _ => none)

/-- The `session/update` that tells the client of an event. -/
def mapEventToUpdate : AgentEvent → Option Json
  | .messageUpdate _ (.textDelta text) =>
    some (.obj [("sessionUpdate", .str "agent_message_chunk"), ("content", textContent text)])
  | .messageUpdate _ (.thinkingDelta thinking) =>
    some (.obj [("sessionUpdate", .str "agent_thought_chunk"), ("content", textContent thinking)])
  | .toolExecutionStart toolCallId toolName args =>
    some (.obj [("sessionUpdate", .str "tool_call"), ("toolCallId", .str toolCallId),
      ("title", .str toolName), ("kind", .str (toolKind toolName)), ("status", .str "pending"),
      ("rawInput", args)])
  | .toolExecutionEnd toolCallId _ result isError =>
    some (.obj [("sessionUpdate", .str "tool_call_update"), ("toolCallId", .str toolCallId),
      ("status", .str (if isError then "failed" else "completed")),
      ("content", toolResultToContent result)])
  | _ => none

/-- The stop reason that an event tells. -/
def turnStop? : AgentEvent → Option StopReason
  | .turnEnd message _ => message.stopReason
  | _ => none

def isAgentEnd : AgentEvent → Bool
  | .agentEnd _ => true
  | _ => false

/-- `last_turn_stop` behind some events. -/
def lastTurnStop (last : Option StopReason) (events : List AgentEvent) : Option StopReason :=
  events.foldl (fun last e => (turnStop? e).or last) last

/-- The stop reason of the last answer of a transcript that has one. -/
def transcriptStop? (messages : List Message) : Option StopReason :=
  messages.reverse.findSome? fun
    | .assistant m => m.stopReason
    | .user _ | .toolResult _ => none

/-- The stop reason at the end of a run, from its turns or else from its transcript. -/
def finalStop (last : Option StopReason) (messages : List Message) : StopReason :=
  (last.or (transcriptStop? messages)).getD .completed

/-- Where a prompt stands. -/
inductive PromptPhase where
  | idle
  /-- The default lane is made sure of next. -/
  | begun (messages : List Message)
  /-- The events are subscribed to next. -/
  | ensured (messages : List Message)
  /-- The messages are sent next. -/
  | subscribed (messages : List Message)
  | consuming
  /-- The client is gone; the lane is aborted next. -/
  | disconnected (error : AcpError)
  | returned (result : Except PromptError AcpStopReason)
  deriving DecidableEq

/-- The prompt follows the events of the lane. -/
def PromptPhase.listens : PromptPhase → Bool
  | .subscribed _ | .consuming => true
  | .idle | .begun _ | .ensured _ | .disconnected _ | .returned _ => false

/-- One call of `handle_prompt`; `next` is where its receiver is. -/
structure PromptCall where
  phase : PromptPhase
  next : ℕ
  lastTurnStop : Option StopReason
  /-- Its messages have entered the channel of the runtime. -/
  prompted : Bool

/-- A command on its way to a run, with the prompt that has sent it. -/
structure SentCommand where
  command : AgentCommand
  call : Option ℕ

/-- A run under way: the prompt that it processes, and the events that it has sent. -/
structure LaneRun where
  call : Option ℕ
  events : List AgentEvent

/-- The default lane and its prompts. The effects of one round of the runtime happen one by one;
`pending` are those that are still to happen. -/
structure PromptLane where
  agent : AgentState
  pending : List Effect
  /-- The commands in the channel of the runtime. -/
  rx : List SentCommand
  /-- The drained commands that wait for the end of the run. -/
  queue : List SentCommand
  run : Option LaneRun
  events : Channel AgentEvent
  /-- All senders of events are gone. -/
  closed : Bool
  call : ℕ → PromptCall
  nextCall : ℕ
  /-- The stop reason of the run that has processed the prompt, once it has ended. -/
  ended : ℕ → Option StopReason

inductive PromptAction where
  /-- A request comes in, with the messages of its parameters or the error in them. -/
  | request (params : Except AcpError (List Message))
  | ensure (call : ℕ) (fault : Option ServerError)
  | subscribe (call : ℕ) (found : Bool)
  | prompt (call : ℕ) (fault : Option ServerError)
  /-- `fault` is what a notification of the client comes to. -/
  | recv (call : ℕ) (fault : Option AcpError)
  /-- The abort may find no lane, or no room in the channel. -/
  | abort (call : ℕ) (enters : Bool)
  /-- Another client sends a command. -/
  | command (cmd : AgentCommand)
  /-- The runtime begins a round. -/
  | round (a : AgentAction)
  | advance
  | close

namespace PromptLane

/-- The lane keeps so many events for those who listen. -/
def start (capacity : ℕ) (transcript : List Message) : PromptLane where
  agent := .start transcript
  pending := []
  rx := []
  queue := []
  run := none
  events := ⟨capacity, []⟩
  closed := false
  call _ := ⟨.idle, 0, none, false⟩
  nextCall := 0
  ended _ := none

/-- The task of the runtime has ended. -/
def exited (s : PromptLane) : Bool := s.agent.exited && s.pending.isEmpty

def setCall (s : PromptLane) (c : ℕ) (call : PromptCall) : PromptLane :=
  { s with call := Function.update s.call c call }

def setPhase (s : PromptLane) (c : ℕ) (phase : PromptPhase) : PromptLane :=
  s.setCall c { s.call c with phase := phase }

/-- A command enters the channel, while somebody reads from it. -/
def send (s : PromptLane) (cmd : SentCommand) : PromptLane :=
  if s.exited then s else { s with rx := s.rx ++ [cmd] }

/-- A lane that is there already is what the prompt needs. -/
def ensureDefaultLane : Option ServerError → Except PromptError Unit
  | none | some (.laneAlreadyExists _) => .ok ()
  | some e => .error (.server e)

/-- The event is read; the end of a run ends the prompt. -/
def consume (s : PromptLane) (c : ℕ) (e : AgentEvent) : PromptLane :=
  let last := (turnStop? e).or (s.call c).lastTurnStop
  s.setCall c
    { s.call c with
      next := (s.call c).next + 1
      lastTurnStop := last
      phase :=
        match e with
        | .agentEnd messages => .returned (.ok (acpStopReason (finalStop last messages)))
        | _ => .consuming }

/-- The client cannot be told of the event. -/
def notifyFails (e : AgentEvent) (fault : Option AcpError) : Option AcpError :=
  if (mapEventToUpdate e).isSome then fault else none

/-- The prompt waits for the next event. -/
def recv (s : PromptLane) (c : ℕ) (fault : Option AcpError) : PromptLane :=
  match s.events.recv (s.call c).next with
  | (.value e, _) =>
    match notifyFails e fault with
    | some error => s.setPhase c (.disconnected error)
    | none => s.consume c e
  | (.lagged _, next) => s.setCall c { s.call c with next := next }
  | (.empty, _) =>
    if s.closed then
      s.setPhase c
        (.returned (.ok (acpStopReason ((s.call c).lastTurnStop.getD .completed))))
    else s

/-- A run sends an event. -/
def sendEvent (s : PromptLane) (e : AgentEvent) : PromptLane :=
  match s.run with
  | none => { s with events := s.events.send e }
  | some run =>
    match e with
    | .agentEnd messages =>
      { s with
        events := s.events.send e
        run := none
        ended :=
          match run.call with
          | some c =>
            Function.update s.ended c (some (finalStop (lastTurnStop none run.events) messages))
          | none => s.ended }
    | _ =>
      { s with
        events := s.events.send e
        run := some { run with events := run.events ++ [e] } }

/-- A command is taken up: what waited is taken from the front of the queue, and a reset discards
the queue. -/
def process (s : PromptLane) (cmd : AgentCommand) : PromptLane :=
  let taken := if cmd.isDeferred then s.queue.head? else none
  { s with
    queue := if cmd = .reset then [] else if cmd.isDeferred then s.queue.tail else s.queue
    run := if cmd.initial?.isSome then some ⟨taken.bind SentCommand.call, []⟩ else none }

/-- The next effect of the round happens; a drain finds the command at the front of the channel. -/
def advance (s : PromptLane) : PromptLane :=
  match s.pending with
  | [] => s
  | .drained cmd :: rest =>
    match s.rx with
    | [] => s
    | sent :: rx =>
      if sent.command = cmd then
        { s with
          pending := rest
          rx := rx
          queue := if cmd.isDeferred then s.queue ++ [sent] else s.queue }
      else s
  | .processing cmd :: rest => { s with pending := rest }.process cmd
  | .event e :: rest => { s with pending := rest }.sendEvent e
  | _ :: rest => { s with pending := rest }

/-- One step; a step that is not possible leaves everything as it is. -/
def step (rt : AgentRuntime) (s : PromptLane) : PromptAction → PromptLane
  | .request params =>
    let phase : PromptPhase :=
      match params with
      | .error e => .returned (.error (.acp e))
      | .ok [] => .returned (.error (.acp (.jsonRpc "empty prompt")))
      | .ok messages => .begun messages
    { s with
      call := Function.update s.call s.nextCall ⟨phase, 0, none, false⟩
      nextCall := s.nextCall + 1 }
  | .ensure c fault =>
    match (s.call c).phase with
    | .begun messages =>
      match ensureDefaultLane fault with
      | .error e => s.setPhase c (.returned (.error e))
      | .ok () => s.setPhase c (.ensured messages)
    | _ => s
  | .subscribe c found =>
    match (s.call c).phase with
    | .ensured messages =>
      if found then
        s.setCall c
          { s.call c with
            phase := .subscribed messages
            next := s.events.sent.length
            lastTurnStop := none }
      else s.setPhase c (.returned (.error (.server (.laneNotFound DEFAULT_LANE))))
    | _ => s
  | .prompt c fault =>
    match (s.call c).phase with
    | .subscribed messages =>
      match fault with
      | some e => s.setPhase c (.returned (.error (.server e)))
      | none =>
        if s.exited then
          s.setPhase c (.returned (.error (.server (.agent "Send error: channel closed"))))
        else
          (s.send ⟨.prompt messages, some c⟩).setCall c
            { s.call c with phase := .consuming, prompted := true }
    | _ => s
  | .recv c fault =>
    match (s.call c).phase with
    | .consuming => s.recv c fault
    | _ => s
  | .abort c enters =>
    match (s.call c).phase with
    | .disconnected e =>
      (if enters then s.send ⟨.abort, none⟩ else s).setPhase c (.returned (.error (.acp e)))
    | _ => s
  | .command cmd => s.send ⟨cmd, none⟩
  | .round a =>
    if s.pending.isEmpty then
      let agent := s.agent.step rt a
      { s with agent := agent, pending := s.agent.ctx.since agent.ctx }
    else s
  | .advance => s.advance
  | .close => { s with closed := s.closed || s.exited }

/-- A prompt that has been sent answers behind the end of its run, with the stop reason of this
run. -/
def Answers (s : PromptLane) : Prop :=
  ∀ c, (s.call c).prompted = true → ∀ result, (s.call c).phase = .returned result →
    ∃ stop, s.ended c = some stop ∧ ∀ answer, result = .ok answer → answer = acpStopReason stop

/-- The event that the runtime sends next. -/
def nextEvent? (s : PromptLane) : Option AgentEvent :=
  match s.pending with
  | .event e :: _ => some e
  | _ => none

/-- No run ends that is not the prompt's own, while its own is still to come; and the prompt misses
neither the stop reason of a turn nor the end of a run. -/
def Follows (s : PromptLane) (c : ℕ) (e : AgentEvent) : Prop :=
  (isAgentEnd e = true → s.ended c = none → s.run.bind LaneRun.call = some c) ∧
    ∀ lost ∈ s.events.overwritten? (s.call c).next, turnStop? lost = none ∧ isAgentEnd lost = false

/-- The client is gone, or the lane, before the prompt has come to the end of a run. -/
def givesUp (s : PromptLane) (c : ℕ) (fault : Option AcpError) : Bool :=
  match (s.events.recv (s.call c).next).1 with
  | .value e => (notifyFails e fault).isSome
  | .lagged _ => false
  | .empty => s.closed

/-- Every prompt that listens follows its own run to its end. -/
def Undisturbed (s : PromptLane) : PromptAction → Prop
  | .advance => ∀ c < s.nextCall, (s.call c).phase.listens = true →
      ∀ e ∈ s.nextEvent?, s.Follows c e
  | .recv c fault => (s.call c).phase = .consuming → s.givesUp c fault = false
  | .request _ | .ensure _ _ | .subscribe _ _ | .prompt _ _ | .abort _ _ | .command _ | .round _
  | .close => True

instance (s : PromptLane) (c : ℕ) (e : AgentEvent) : Decidable (s.Follows c e) :=
  inferInstanceAs (Decidable ((_ → _ → _) ∧ ∀ lost ∈ _, _ ∧ _))

instance (s : PromptLane) : (a : PromptAction) → Decidable (s.Undisturbed a)
  | .advance => inferInstanceAs (Decidable (∀ c < s.nextCall, _ → ∀ e ∈ _, s.Follows c e))
  | .recv _ _ => inferInstanceAs (Decidable (_ → _))
  | .request _ | .ensure _ _ | .subscribe _ _ | .prompt _ _ | .abort _ _ | .command _ | .round _
  | .close => .isTrue trivial

end PromptLane

end Guigu.Acp
