import Guigu.Core.Runtime.LoopTurns

/-! The task that owns an agent takes up one command after another, those of its queue first, and
the clients whose commands reach it through a channel. -/
namespace Guigu

/-- The messages that the run of a command starts with. -/
def AgentCommand.initial? : AgentCommand → Option (List Message)
  | .prompt ms => some ms
  | .steer m | .followUp m => some [m]
  | .continue_ => some []
  | .abort | .reset | .shutdown => none

structure AgentState where
  ctx : RunContext
  processed : ℕ
  exited : Bool
  deriving DecidableEq, Repr

/-- The next command comes from the channel, or from the queue; or the shutdown token is seen. The
run of a command has its surroundings. -/
inductive AgentAction where
  | receive (cmd : AgentCommand) (env : RunEnv)
  | dequeue (env : RunEnv)
  | exit

/-- A run with nothing around it. -/
def RunEnv.silent : RunEnv := ⟨[], []⟩

namespace AgentAction

def env : AgentAction → RunEnv
  | .receive _ env | .dequeue env => env
  | .exit => .silent

def exits : AgentAction → Bool
  | .exit => true
  | _ => false

end AgentAction

def RunContext.reset (ctx : RunContext) : RunContext :=
  { ctx with
    transcript := []
    queue := []
    snapshot := { ctx.snapshot with messages := [], pendingToolCalls := [], errorMessage := none } }

def runWithInitial (rt : AgentRuntime) (ctx : RunContext) (initial : List Message) (env : RunEnv) :
    (Bool × ℕ) × RunContext :=
  let r := runAgentLoop rt ctx initial env
  ((r.1.shutdown, r.1.consumed), r.2)

/-- Whether the task ends, and how many commands have been used up besides this one. -/
def processCommand (rt : AgentRuntime) (ctx : RunContext) (cmd : AgentCommand) (env : RunEnv) :
    (Bool × ℕ) × RunContext :=
  match cmd with
  | .prompt ms => runWithInitial rt ctx ms env
  | .steer m | .followUp m => runWithInitial rt ctx [m] env
  | .continue_ => runWithInitial rt ctx [] env
  | .abort => ((false, 0), ctx)
  | .reset => ((false, ctx.queue.length), ctx.reset)
  | .shutdown => ((true, 0), ctx)

namespace AgentState

/-- An agent over a transcript, in front of its first command. -/
def start (transcript : List Message) : AgentState := ⟨.start transcript, 0, false⟩

/-- The task ends before it takes up another command. -/
def stops (s : AgentState) : Bool := s.exited || s.ctx.tokens.shutdown

/-- The next command: the queue is older than the channel. -/
def next? (s : AgentState) (a : AgentAction) : Option (AgentCommand × RunContext) :=
  if s.stops then none
  else
    match s.ctx.queue, a with
    | cmd :: queue, .dequeue _ => some (cmd, { s.ctx with queue := queue })
    | [], .receive cmd _ => some (cmd, s.ctx.record [.drained cmd])
    | _, _ => none

/-- The command and what has been used up besides it count as processed. -/
def process (rt : AgentRuntime) (s : AgentState) (cmd : AgentCommand) (ctx : RunContext)
    (env : RunEnv) : AgentState :=
  let r := processCommand rt (ctx.record [.processing cmd]) cmd env
  ⟨r.2, s.processed + (1 + r.1.2), r.1.1⟩

/-- One round of the task. -/
def step (rt : AgentRuntime) (s : AgentState) (a : AgentAction) : AgentState :=
  match s.next? a with
  | some (cmd, ctx) => s.process rt cmd ctx a.env
  | none => { s with exited := s.stops || a.exits }

end AgentState

/-- A command that has entered the channel; its call has returned when it has counted it. -/
structure Call where
  command : AgentCommand
  returned : Bool
  deriving DecidableEq, Repr

/-- An agent with its clients: the calls in the order their commands entered the channel, and the
count of commands sent. -/
structure AgentSystem where
  agent : AgentState
  calls : List Call
  counter : ℕ
  deriving DecidableEq, Repr

/-- A call puts its command into the channel, and counts it afterwards. -/
inductive SystemAction where
  | send (cmd : AgentCommand)
  | count (call : ℕ)
  | runtime (a : AgentAction)

namespace AgentSystem

def start (transcript : List Message) : AgentSystem := ⟨.start transcript, [], 0⟩

/-- The commands that have entered the channel. -/
def sent (s : AgentSystem) : List AgentCommand := s.calls.map Call.command

/-- The commands that have left the channel. -/
def drained (s : AgentSystem) : List AgentCommand := drainedOf s.agent.ctx.trace

/-- The commands in the channel. -/
def channel (s : AgentSystem) : List AgentCommand := s.sent.drop s.drained.length

/-- `wait_for_idle` does not wait any longer. -/
def waitForIdle (s : AgentSystem) : Bool := s.counter ≤ s.agent.processed

/-- Drains find what has been sent, in that order; nothing can be sent to a task that has ended.
`Abort` is not counted. -/
def step (rt : AgentRuntime) (s : AgentSystem) : SystemAction → AgentSystem
  | .send cmd =>
    if s.agent.exited then s else { s with calls := s.calls ++ [⟨cmd, !cmd.isCounted⟩] }
  | .count call =>
    match s.calls[call]? with
    | some ⟨cmd, false⟩ =>
      { s with calls := s.calls.set call ⟨cmd, true⟩, counter := s.counter + 1 }
    | _ => s
  | .runtime a =>
    let agent := s.agent.step rt a
    if drainedOf agent.ctx.trace <+: s.sent then { s with agent := agent } else s

/-- A call that counts its command sends nothing. -/
theorem sent_count (rt : AgentRuntime) (s : AgentSystem) (call : ℕ) :
    (s.step rt (.count call)).sent = s.sent ∧ (s.step rt (.count call)).agent = s.agent := by
  unfold step
  simp only
  split
  next cmd hcall =>
    refine ⟨?_, rfl⟩
    unfold sent
    rw [List.map_set]
    apply List.ext_getElem?
    intro i
    by_cases h : i = call
    · subst h
      obtain ⟨hlt, hget⟩ := List.getElem?_eq_some_iff.mp hcall
      rw [List.getElem?_set_self (by simpa using hlt), List.getElem?_map, hcall]
      rfl
    · rw [List.getElem?_set_ne (Ne.symm h)]
  · exact ⟨rfl, rfl⟩

end AgentSystem

end Guigu
